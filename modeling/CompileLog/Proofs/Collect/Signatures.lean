import CompileLog.Proofs.Collect.Heard
import CompileLog.Proofs.KeyMap
import CompileLog.Proofs.Text.Words
import Mathlib.Data.List.Nodup

/-!
# Methods that are explained by numbers

Outside a task a log spells a method out as its class, its name and its descriptor. Inside a task it
explains numbers for types, for classes and for the method, and the descriptor is put together from
what the numbers stand for. If no number is explained twice, then both ways lead to the same method:
what the number stands for is what is read where the method is spelled out.
-/

namespace CompileLog

/-! ### Types and their descriptors -/

/-- The name of a class. It has no blanks, and it is not that of an array. -/
structure ClassName where
  /-- The name, as it is spelled. -/
  text : String
  /-- It is one word. -/
  isWord : Text.IsWord text.toList
  /-- It does not begin as the name of an array does. -/
  not_array : text.toList.head? ≠ some '['

/-- The primitive types. -/
inductive Primitive where
  | boolean | byte | char | short | int | long | float | double
  deriving DecidableEq

namespace Primitive

/-- What a log calls the type. -/
def word : Primitive → String
  | boolean => "boolean"
  | byte => "byte"
  | char => "char"
  | short => "short"
  | int => "int"
  | long => "long"
  | float => "float"
  | double => "double"

/-- The letter that stands for it in a descriptor. -/
def letter : Primitive → Char
  | boolean => 'Z'
  | byte => 'B'
  | char => 'C'
  | short => 'S'
  | int => 'I'
  | long => 'J'
  | float => 'F'
  | double => 'D'

end Primitive

/-- The type of a value. -/
inductive ValueType where
  /-- A primitive type. -/
  | primitive (p : Primitive)
  /-- A class. -/
  | object (c : ClassName)
  /-- The arrays of a type. -/
  | array (component : ValueType)

/-- The descriptor of the type of a value. -/
def ValueType.descriptor : ValueType → String
  | primitive p => String.singleton p.letter
  | object c => "L" ++ c.text ++ ";"
  | array component => "[" ++ component.descriptor

/-- The descriptor of what a method returns, which may be nothing. -/
def returnDescriptor : Option ValueType → String
  | some t => t.descriptor
  | none => "V"

/-- A method as it is declared. -/
structure Declaration where
  /-- The class it belongs to. -/
  holder : ClassName
  /-- Its name. -/
  name : String
  /-- The name is one word. -/
  name_isWord : Text.IsWord name.toList
  /-- The types of its parameters. -/
  parameters : List ValueType
  /-- The type of what it returns, unless that is nothing. -/
  returns : Option ValueType

namespace Declaration

/-- The descriptor of the method. -/
def descriptor (m : Declaration) : String :=
  "(" ++ String.join (m.parameters.map ValueType.descriptor) ++ ")" ++ returnDescriptor m.returns

/-- The method as a log spells it. -/
def method (m : Declaration) : Method := ⟨m.holder.text, m.name, m.descriptor⟩

end Declaration

/-- The descriptor of a type is one word. By induction on the type. -/
theorem ValueType.isWord_descriptor (t : ValueType) : Text.IsWord t.descriptor.toList := by
  induction t with
  | primitive p => cases p <;> decide
  | object c =>
    have hopens : Text.IsWord "L".toList := by decide
    have hcloses : Text.IsWord ";".toList := by decide
    rw [descriptor, String.toList_append, String.toList_append]
    exact (hopens.append c.isWord.unbroken).append hcloses.unbroken
  | array component ih =>
    have hopens : Text.IsWord "[".toList := by decide
    rw [descriptor, String.toList_append]
    exact hopens.append ih.unbroken

/-- So is that of what a method returns. -/
theorem isWord_returnDescriptor (t : Option ValueType) :
    Text.IsWord (returnDescriptor t).toList := by
  cases t with
  | none => decide
  | some t => exact t.isWord_descriptor

/-- So is that of a method. -/
theorem Declaration.isWord_descriptor (m : Declaration) : Text.IsWord m.descriptor.toList := by
  have hopens : Text.IsWord "(".toList := by decide
  have hcloses : Text.IsWord ")".toList := by decide
  have hparameters : ∀ c ∈ (String.join (m.parameters.map ValueType.descriptor)).toList,
      Text.isBlank c = false := by
    intro c hc
    rw [String.toList_join, List.flatMap_map] at hc
    obtain ⟨t, _, ht⟩ := List.mem_flatMap.mp hc
    exact t.isWord_descriptor.unbroken c ht
  rw [descriptor, String.toList_append, String.toList_append, String.toList_append]
  exact ((hopens.append hparameters).append hcloses.unbroken).append
    (isWord_returnDescriptor m.returns).unbroken

/-- A declared method is read from the way it is spelled out. -/
theorem Declaration.parse?_display (m : Declaration) :
    Method.parse? m.method.display = some m.method := by
  refine Method.parse?_display m.holder.isWord m.name_isWord m.isWord_descriptor ?_
  simp [method, descriptor]

namespace Collect

/-! ### Numbers that are explained once -/

/-- The number that an event explains. -/
def explainedId? : Event → Option UInt64
  | .typeDef (some id) (some _) | .klassDef (some id) (some _) | .methodDef (some id) .. => some id
  | _ => none

/-- The event that explains a number as that of a type, or as that of nothing where a method returns
nothing. Primitive types are explained by what they are called, arrays by their descriptors. -/
def explanation (id : UInt64) : Option ValueType → Event
  | none => .typeDef (some id) (some "void")
  | some (.primitive p) => .typeDef (some id) (some p.word)
  | some (.object c) => .klassDef (some id) (some c.text)
  | some (.array component) => .klassDef (some id) (some (ValueType.array component).descriptor)

/-- Events explain a number as that of a declared method: its class, its types and then the method
itself, by their numbers, and no number twice. -/
inductive ExplainedAs (m : Declaration) (id : UInt64) : List Event → Prop where
  /-- The event that explains the method is between others. -/
  | method {before after : List Event} {holder returns : UInt64} {arguments : Option (List UInt64)}
      {bytes : Option UInt32} {count : Option UInt64}
      (hdistinct : ((before ++ .methodDef (some id) (some holder) (some m.name) (some returns)
        arguments bytes count :: after).filterMap explainedId?).Nodup)
      (hholder : explanation holder (some (.object m.holder)) ∈ before)
      (harguments : List.Forall₂ (fun t id => explanation id (some t) ∈ before) m.parameters
        (arguments.getD []))
      (hreturns : explanation returns m.returns ∈ before) :
      ExplainedAs m id (before ++ .methodDef (some id) (some holder) (some m.name) (some returns)
        arguments bytes count :: after)

namespace Dictionary

variable {d : Dictionary} {id : UInt64} {e : Event} {events : List Event}

/-- All that a dictionary has under a number. -/
def entry (d : Dictionary) (id : UInt64) : Option String × Option String × Option KnownMethod :=
  (d.types.get? id, d.klasses.get? id, d.methods.get? id)

/-- What is explained under another number leaves this one. -/
theorem entry_explain_of_ne (d : Dictionary) (he : explainedId? e ≠ some id) :
    (d.explain e).entry id = d.entry id := by
  have hother : ∀ id', some id' ≠ some id → id' ≠ id := fun _ h heq => h (congrArg some heq)
  cases e with
  | typeDef id' name =>
    cases id' with
    | none => rfl
    | some id' =>
      cases name with
      | none => rfl
      | some name => simp [explain, entry, KeyMap.get?_insert, hother id' he]
  | klassDef id' name =>
    cases id' with
    | none => rfl
    | some id' =>
      cases name with
      | none => rfl
      | some name => simp [explain, entry, KeyMap.get?_insert, hother id' he]
  | methodDef id' holder name returnType arguments bytes count =>
    cases id' with
    | none => rfl
    | some id' => simp [explain, entry, defineMethod, KeyMap.get?_insert, hother id' he]
  | _ => rfl

/-- So do events that explain other numbers. -/
theorem entry_foldl_explain (d : Dictionary) (hevents : ∀ e ∈ events, explainedId? e ≠ some id) :
    (events.foldl explain d).entry id = d.entry id := by
  induction events generalizing d with
  | nil => rfl
  | cons e rest ih =>
    rw [List.foldl_cons, ih _ fun e' he' => hevents e' (List.mem_cons_of_mem e he'),
      d.entry_explain_of_ne (hevents e List.mem_cons_self)]

/-- Events before and behind an event that explains a number explain others. -/
theorem others_of_nodup {before after : List Event}
    (hdistinct : ((before ++ e :: after).filterMap explainedId?).Nodup)
    (he : explainedId? e = some id) :
    (∀ e' ∈ before, explainedId? e' ≠ some id) ∧ ∀ e' ∈ after, explainedId? e' ≠ some id := by
  rw [List.filterMap_append, List.filterMap_cons_some he, List.nodup_middle,
    List.nodup_cons, List.mem_append] at hdistinct
  obtain ⟨hnever, _⟩ := hdistinct
  constructor
  · exact fun e' he' hid => hnever (.inl (List.mem_filterMap.mpr ⟨e', he', hid⟩))
  · exact fun e' he' hid => hnever (.inr (List.mem_filterMap.mpr ⟨e', he', hid⟩))

/-- If no number is explained twice, then what a dictionary has under a number is what the event that
explains it puts there where nothing was. -/
theorem entry_of_mem (hdistinct : (events.filterMap explainedId?).Nodup) (he : e ∈ events)
    (hid : explainedId? e = some id) :
    ∃ d : Dictionary, d.entry id = (none, none, none) ∧
      (events.foldl explain .empty).entry id = (d.explain e).entry id := by
  obtain ⟨before, after, rfl⟩ := List.append_of_mem he
  obtain ⟨hbefore, hafter⟩ := others_of_nodup hdistinct hid
  refine ⟨before.foldl explain .empty, ?_, ?_⟩
  · rw [entry_foldl_explain _ hbefore]
    rfl
  · rw [List.foldl_append, List.foldl_cons, entry_foldl_explain _ hafter]

/-- The descriptor of a number depends on nothing but what is explained under it. -/
theorem descriptor_congr {d d' : Dictionary} (h : d.entry id = d'.entry id) :
    d.descriptor id = d'.descriptor id := by
  have htypes : d.types.get? id = d'.types.get? id := congrArg Prod.fst h
  have hklasses : d.klasses.get? id = d'.klasses.get? id := congrArg (fun x => x.2.1) h
  unfold descriptor
  rw [htypes, hklasses]

/-- A number of which nothing was known is explained as that of a type. The dictionary spells the
descriptors of primitive types and of classes itself, and takes that of an array as it is. -/
theorem descriptor_explain (hnone : d.entry id = (none, none, none)) (t : Option ValueType) :
    (d.explain (explanation id t)).descriptor id = returnDescriptor t := by
  -- A type under the number would hide the class, so it counts that there is none.
  have htypes : d.types.get? id = none := congrArg Prod.fst hnone
  cases t with
  | none => simp [explain, explanation, descriptor, KeyMap.get?_insert, typeDescriptor,
      returnDescriptor]
  | some t =>
    cases t with
    | primitive p =>
      have hletter : typeDescriptor p.word = String.singleton p.letter := by cases p <;> rfl
      simp [explain, explanation, descriptor, KeyMap.get?_insert, hletter, returnDescriptor,
        ValueType.descriptor]
    | object c =>
      simp [explain, explanation, descriptor, KeyMap.get?_insert, htypes, c.not_array,
        classDescriptor, returnDescriptor, ValueType.descriptor]
    | array component =>
      simp [explain, explanation, descriptor, KeyMap.get?_insert, htypes, returnDescriptor,
        ValueType.descriptor]

/-- A number that is explained as that of a type stands for the descriptor of that type. -/
theorem descriptor_of_mem (hdistinct : (events.filterMap explainedId?).Nodup)
    {t : Option ValueType} (ht : explanation id t ∈ events) :
    (events.foldl explain .empty).descriptor id = returnDescriptor t := by
  have hid : explainedId? (explanation id t) = some id := by
    rcases t with _ | (_ | _ | _) <;> rfl
  obtain ⟨d, hnone, heq⟩ := entry_of_mem hdistinct ht hid
  rw [descriptor_congr heq, descriptor_explain hnone]

/-- A number that is explained as that of a class stands for its name. -/
theorem klass_of_mem (hdistinct : (events.filterMap explainedId?).Nodup) {c : ClassName}
    (hc : explanation id (some (.object c)) ∈ events) :
    (events.foldl explain .empty).klasses.get? id = some c.text := by
  obtain ⟨d, _, heq⟩ := entry_of_mem hdistinct hc rfl
  have hklass : _ = (d.klasses.insert id c.text).get? id := congrArg (fun x => x.2.1) heq
  rw [KeyMap.get?_insert, if_pos rfl] at hklass
  exact hklass

/-- Numbers that are explained as those of the types of a method stand for its descriptor. -/
theorem signature_of_mem (hdistinct : (events.filterMap explainedId?).Nodup) {m : Declaration}
    {arguments : List UInt64} {returns : UInt64}
    (harguments : List.Forall₂ (fun t id => explanation id (some t) ∈ events) m.parameters arguments)
    (hreturns : explanation returns m.returns ∈ events) :
    (events.foldl explain .empty).signature arguments (some returns) = m.descriptor := by
  have hparameters : arguments.map (events.foldl explain .empty).descriptor =
      m.parameters.map ValueType.descriptor := by
    generalize m.parameters = parameters at harguments
    induction harguments with
    | nil => rfl
    | cons ht _ ih => rw [List.map_cons, List.map_cons, ih, descriptor_of_mem hdistinct ht]; rfl
  unfold signature Declaration.descriptor
  simp only
  rw [hparameters, descriptor_of_mem hdistinct hreturns]

/-- A number that is explained as that of a declared method stands for that method. -/
theorem methodOf_of_explained {m : Declaration} (h : ExplainedAs m id events) :
    (events.foldl explain .empty).methodOf (some id) = m.method := by
  cases h with
  | @method before after holder returns arguments bytes count hdistinct hholder harguments hreturns =>
    have hid : explainedId? (.methodDef (some id) (some holder) (some m.name) (some returns) arguments
        bytes count) = some id := rfl
    obtain ⟨_, hafter⟩ := others_of_nodup hdistinct hid
    -- The descriptor is put together where the method is explained, so what comes before decides.
    have hearlier : (before.filterMap explainedId?).Nodup := by
      rw [List.filterMap_append] at hdistinct
      exact hdistinct.of_append_left
    have hentry := entry_foldl_explain ((before.foldl explain .empty).explain (.methodDef (some id)
      (some holder) (some m.name) (some returns) arguments bytes count)) hafter
    have hmethods := congrArg (fun x => x.2.2) hentry
    simp only [entry] at hmethods
    rw [List.foldl_append, List.foldl_cons]
    unfold methodOf known?
    rw [Option.bind_some, hmethods]
    simp only [explain, defineMethod, KeyMap.get?_insert, if_pos]
    rw [Option.bind_some, klass_of_mem hearlier hholder,
      signature_of_mem hearlier harguments hreturns]
    rfl

end Dictionary

/-! ### The task under way -/

namespace Compiling

variable (c : Compiling)

/-- The end of a removal explains no number. -/
theorem names_closeRecord : c.closeRecord.names = c.names := by
  unfold closeRecord
  split <;> rfl

/-- Nor does its begin. -/
theorem names_openRecord (record : OpenRecord) (shape : Shape) :
    (c.openRecord record shape).names = c.names := by
  have hclosed : c.touch.closeRecord.names = c.names := c.touch.names_closeRecord
  unfold openRecord
  simp only
  split
  · exact hclosed
  · exact (names_closeRecord { c.touch.closeRecord with record := some record }).trans hclosed

/-- Whatever an event says, the numbers of the task under way are explained as it explains them. -/
theorem names_take (shape : Shape) (e : Event) :
    (c.take shape e).names = c.names.explain e := by
  cases e with
  | typeDef id name => cases id <;> cases name <;> rfl
  | klassDef id name => cases id <;> cases name <;> rfl
  | methodDef id holder name returnType arguments bytes count => cases id <;> rfl
  | parseOpen method stamp =>
    show (c.openBody method).names = c.names
    unfold openBody
    simp only
    split <;> split <;> rfl
  | uncommonTrap id bci reason action stamp => cases id <;> rfl
  | eliminateAllocation klass => exact c.names_openRecord _ shape
  | eliminateLock lock kind => exact c.names_openRecord _ shape
  | phaseDone facts =>
    show (c.closePhase facts).names = c.names
    unfold closePhase
    split <;> rfl
  | close of =>
    cases of with
    | parseOpen =>
      show c.closeBody.names = c.names
      unfold closeBody
      split <;> rfl
    | eliminateAllocation => exact c.names_closeRecord
    | eliminateLock => exact c.names_closeRecord
    | _ => rfl
  | _ => rfl

end Compiling

/-- The numbers of the task under way are explained as they were to it. -/
def NamesKept (told : List LogEvent) (a : Compiling) : Prop :=
  a.names = told.foldl (fun d e => d.explain e.event) .empty

/-- Each way of telling the task under way more explains its numbers as they are told. -/
theorem NamesKept.listener : Listener Unparsed NamesKept where
  begun {e} {facts} {t} {flags} _ he _ _ := by
    unfold NamesKept
    rw [List.foldl_cons, he]
    rfl
  noted _ h := h
  heard {told} {a} {e} {flags} _ _ h := by
    unfold NamesKept
    rw [Compiling.names_take, List.foldl_append, List.foldl_cons, List.foldl_nil, ← h]
  framed {told} {a} {e} _ _ _ he h := by
    unfold NamesKept
    rw [List.foldl_append, List.foldl_cons, List.foldl_nil, ← h, he]
    rfl

/-- What does not tell of a task explains no number. -/
theorem Dictionary.explain_of_bearing (d : Dictionary) {e : Event} (he : bearing e ≠ .tells) :
    d.explain e = d := by
  cases e with
  | typeDef id name => exact absurd rfl he
  | klassDef id name => exact absurd rfl he
  | methodDef id holder name returnType arguments bytes count => exact absurd rfl he
  | _ => rfl

namespace Collector

/-- Whatever a collector is given, the numbers of the task under way are explained as was heard since
it began. -/
theorem names_feed (retain : Bool) (inputs : List Input) :
    (feed retain inputs).1.active.map Compiling.names =
      (underway inputs).map fun heard => heard.foldl Dictionary.explain .empty := by
  have hfed : Option.Rel NamesKept (transcript inputs).told (feed retain inputs).1.active :=
    (NamesKept.listener.attends_feed Unparsed.custody retain inputs).active
  have halike : GatheredAlike Dictionary.explain .empty (transcript inputs).told
      (underway inputs) := gathered_alike Dictionary.explain_of_bearing inputs
  have hnamed := halike.rel (P := fun d (a : Compiling) => a.names = d)
    (fun _ _ hnames => hnames) hfed
  generalize (feed retain inputs).1.active = active at hnamed ⊢
  generalize underway inputs = heard at hnamed ⊢
  cases hnamed with
  | none => rfl
  | some hnames => exact congrArg some hnames

/-- Whatever a collector is given, a number that was explained to the task under way as that of a
declared method stands for the method that is read where it is spelled out. -/
theorem explained_method_eq_spelled (retain : Bool) {inputs : List Input} {heard : List Event}
    (hheard : underway inputs = some heard) {m : Declaration} {id : UInt64}
    (hexplained : ExplainedAs m id heard) :
    ∃ a, (feed retain inputs).1.active = some a ∧
      Method.parse? (m.holder.text ++ " " ++ m.name ++ " " ++ m.descriptor) =
        some (a.names.methodOf (some id)) := by
  have hnames := names_feed retain inputs
  rw [hheard, Option.map_some] at hnames
  obtain ⟨a, hactive, hnamed⟩ := Option.map_eq_some_iff.mp hnames
  refine ⟨a, hactive, ?_⟩
  rw [hnamed, Dictionary.methodOf_of_explained hexplained]
  exact m.parse?_display

/-- A method that returns nothing, with an array of arrays, an object and a long as its arguments, is
explained inside a task. -/
theorem explained_method_eq_spelled_fill :
    let told (e : Event) : Input := .event ⟨.empty, "", e, [], 2, some "task", 0⟩
    let events : List Event := [.typeDef (some 1) (some "void"), .klassDef (some 2) (some "Lists"),
      .klassDef (some 3) (some "java/lang/Object"), .klassDef (some 4) (some "[[I"),
      .typeDef (some 5) (some "long"),
      .methodDef (some 6) (some 2) (some "fill") (some 1) (some [4, 3, 5]) (some 31) none,
      .parseOpen (some 6) none]
    ∃ a, (feed true ((.taskStart default :: events).map told)).1.active = some a ∧
      Method.parse? "Lists fill ([[ILjava/lang/Object;J)V" =
        some (a.names.methodOf (some 6)) := by
  intro told events
  let lists : ClassName := ⟨"Lists", by decide, by decide⟩
  let object : ClassName := ⟨"java/lang/Object", by decide, by decide⟩
  let fill : Declaration := ⟨lists, "fill", by decide,
    [.array (.array (.primitive .int)), .object object, .primitive .long], none⟩
  have hdistinct : (events.filterMap explainedId?).Nodup := by decide
  have hholder : explanation 2 (some (.object fill.holder)) ∈ events.take 5 := by decide
  have harguments : List.Forall₂ (fun t id => explanation id (some t) ∈ events.take 5)
      fill.parameters [4, 3, 5] :=
    .cons (by decide) (.cons (by decide) (.cons (by decide) .nil))
  have hreturns : explanation 1 fill.returns ∈ events.take 5 := by decide
  have hexplained : ExplainedAs fill 6 events := .method hdistinct hholder harguments hreturns
  have hheard : underway ((.taskStart default :: events).map told) = some events := rfl
  exact explained_method_eq_spelled true hheard hexplained

end Collector

end Collect

end CompileLog

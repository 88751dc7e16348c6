import CompileLog.Proofs.Collect.Custody
import CompileLog.Proofs.Event.Attributes
import CompileLog.Proofs.Text.Words

/-!
# The methods of tasks

A task gets its method from the attributes of the elements that tell of it, or has the stand-in
where none names one. A method in an attribute is read from its words, so the method of every task
that a log hands over is read back from the way it is displayed.
-/

namespace CompileLog

open Collect Markup Text

/-! ### Methods that a log names -/

/-- A method in an attribute is read back. -/
theorem readsBack_of_read? {form : ValueForm} {raw : String} {m : Method}
    (h : form.read? raw = some (.signature m)) : m.ReadsBack := by
  have hparsed : Method.parse? raw = some m := by
    unfold ValueForm.read? at h
    cases form with
    | signature => simpa using h
    | methodOrRef =>
      simp only at h
      split at h
      · cases h
      · simpa using h
    | flag =>
      simp only at h
      split_ifs at h
      all_goals cases h
    | text => cases h
    | _ =>
      obtain ⟨_, _, hother⟩ := Option.map_eq_some_iff.mp h
      cases hother
  exact Method.readsBack_of_parse? hparsed

/-- The methods that a tag gives to a task are read back. -/
theorem namesOnly_ofTag (v : Vocabulary) (tag : String) (attributes : List (String × String)) :
    NamesOnly Method.ReadsBack (Event.ofTag v tag attributes).1 := by
  cases hkind : v.kindOf tag with
  | none =>
    have hunknown : v.tags.get? tag = none := Option.map_eq_none_iff.mp hkind
    unfold Event.ofTag
    rw [hunknown]
    trivial
  | some kind =>
    rw [ofTag_eq hkind]
    have hmethod : ∀ role, ∀ m ∈ AttrValues.signature? (attributes.filterMap (v.read? tag)) role,
        m.ReadsBack := by
      intro role m hm
      unfold AttrValues.signature? at hm
      split at hm
      · next found hfirst =>
        obtain rfl := Option.some.inj hm
        rw [first?_filterMap_read?] at hfirst
        obtain ⟨a, _, hread⟩ := List.exists_of_findSome?_eq_some hfirst
        exact readsBack_of_read? hread
      · cases hm
    cases kind with
    | taskQueued | taskStart | nmethod => exact hmethod .signature
    | _ => trivial

/-- So are those that any fragment of a log gives to a task. -/
theorem namesOnly_decode (v : Vocabulary) (f : Fragment) :
    NamesOnly Method.ReadsBack (decode v f).event := by
  obtain ⟨content, depth, parent, position⟩ := f
  cases content with
  | opening name attributes => exact namesOnly_ofTag v name attributes
  | empty name attributes => exact namesOnly_ofTag v name attributes
  | closing name =>
    simp only [decode]
    cases v.kindOf name <;> trivial
  | text text =>
    simp only [decode, Event.ofText]
    split
    · trivial
    · trivial
    · split <;> trivial

/-! ### What leaves the method of a task alone -/

/-- A flag. -/
@[simp] theorem Task.method_flag (t : Task) (f : TaskFlag) : (t.flag f).method = t.method := by
  unfold Task.flag
  split <;> rfl

/-- A listing. -/
theorem Task.method_attachListing (t : Task) (l : Listing) :
    (t.attachListing l).method = t.method := by
  unfold Task.attachListing
  split
  · rfl
  · exact t.method_flag _

namespace Collect

namespace Collector

/-- Flags. By induction on them. -/
@[simp] theorem method_withFlags (flags : List TaskFlag) (t : Task) :
    (withFlags flags t).method = t.method := by
  unfold withFlags
  induction flags generalizing t with
  | nil => rfl
  | cons f rest ih => rw [List.foldl_cons, ih, t.method_flag]

/-- The flag of a task whose method is not known. -/
@[simp] theorem method_flagUnresolved (t : Task) : (flagUnresolved t).method = t.method := by
  unfold flagUnresolved
  split
  · exact t.method_flag _
  · rfl

/-- The flags of call sites that lie outside their callers. -/
@[simp] theorem method_flagMisplaced (t : Task) : (flagMisplaced t).method = t.method := by
  rw [flagMisplaced_eq_withFlags, method_withFlags]

/-- That it is cut short. -/
@[simp] theorem method_cutShort (t : Task) : (cutShort t).method = t.method :=
  Task.method_flag _ _

/-- A listing that may not be kept. -/
theorem method_addListing (retain : Bool) (l : Listing) (t : Task) :
    (addListing retain l t).method = t.method := by
  unfold addListing
  split
  · exact t.method_attachListing l
  · exact t.method_attachListing l

end Collector

namespace Compiling

variable (c : Compiling)

/-- That something was said. -/
@[simp] theorem method_touch : c.touch.task.method = c.task.method := by
  unfold touch onTask
  simp only
  split <;> rfl

/-- The end of a removed operation. -/
@[simp] theorem method_closeRecord : c.closeRecord.task.method = c.task.method := by
  unfold closeRecord
  split <;> rfl

/-- The begin of a removed operation. -/
theorem method_openRecord (record : OpenRecord) (shape : Shape) :
    (c.openRecord record shape).task.method = c.task.method := by
  unfold openRecord
  simp only
  split <;> simp

/-- The begin of a method body. -/
theorem method_openBody (method : Option UInt64) :
    (c.openBody method).task.method = c.task.method := by
  unfold openBody
  simp only
  split
  · cases c.touch.names.known? method <;> simp [onTask]
  · split <;> simp

/-- The end of a method body. -/
theorem method_closeBody : c.closeBody.task.method = c.task.method := by
  unfold closeBody
  split
  · exact Task.method_flag _ _
  · rfl

/-- The end of a phase. -/
theorem method_closePhase (facts : PhaseFacts) :
    (c.closePhase facts).task.method = c.task.method := by
  unfold closePhase
  split <;> rfl

/-- Whatever an event says about the task under way. -/
theorem method_take (shape : Shape) (e : Event) :
    (c.take shape e).task.method = c.task.method := by
  cases e with
  | typeDef id name => cases id <;> cases name <;> rfl
  | klassDef id name => cases id <;> cases name <;> rfl
  | methodDef id => cases id <;> rfl
  | parseOpen method => exact c.method_openBody method
  | inlineSuccess | inlineFail | intrinsic => exact c.method_touch
  | uncommonTrap id =>
    cases id with
    | none => exact c.method_touch
    | some id => rfl
  | eliminateAllocation | eliminateLock => exact c.method_openRecord _ _
  | hotThrow | phase | failure => exact c.method_touch
  | phaseDone facts => exact c.method_closePhase facts
  | close of =>
    cases of with
    | parseOpen => exact c.method_closeBody
    | eliminateAllocation | eliminateLock => exact c.method_closeRecord
    | _ => rfl
  | _ => rfl

/-- The end of the task. -/
theorem method_finished (success : Option Bool) (nativeSize inlinedBytes : Option UInt64)
    (stamp : Option Stamp) (flags : List TaskFlag) :
    (c.finished success nativeSize inlinedBytes stamp flags).method = c.task.method := by
  unfold finished
  simp only
  split <;> simp

end Compiling

/-! ### Where the method of a task comes from -/

variable {M : Method → Prop} (hM : M .unresolved)

/-- A method that is named, or else the one of before. -/
theorem forall_getD {method : Option Method} (hmethod : ∀ m ∈ method, M m) {before : Method}
    (hbefore : M before) : M (method.getD before) := by
  cases method with
  | none => exact hbefore
  | some m => exact hmethod m rfl

/-- What is said where a task is queued or begins may name its method. -/
theorem forall_applyFacts {facts : TaskFacts} (hmethod : ∀ m ∈ facts.method, M m) {t : Task}
    (ht : M t.method) : M (Collector.applyFacts facts t).method := by
  show M (if t.method.isUnresolved then facts.method.getD t.method else t.method)
  split
  · exact forall_getD hmethod ht
  · exact ht

/-- What is said of its installed code may name its method. -/
theorem forall_install {facts : NativeFacts} (hmethod : ∀ m ∈ facts.method, M m)
    (flags : List TaskFlag) {t : Task} (ht : M t.method) :
    M (Collector.install facts flags t).method := by
  unfold Collector.install
  rw [Collector.method_withFlags]
  unfold Task.attachNative
  simp only
  split
  · next method _ hnamed => exact hmethod method hnamed
  · exact ht

/-- Whatever more is told of a task. -/
theorem ToldOf.forall_method {f : Task → Task} (hf : ToldOf M f) {t : Task} (ht : M t.method) :
    M (f t).method := by
  cases hf with
  | queued hmethod hflags =>
    unfold Collector.noteQueued
    rw [Collector.method_withFlags]
    exact forall_applyFacts hmethod ht
  | installed hmethod hflags => exact forall_install hmethod _ ht
  | printed retain l => rwa [Collector.method_addListing]

include hM in
/-- If the stand-in has a property, and every method that a log gives to a task, then so does the
method of every task that it hands over. -/
theorem custodyOf_method : CustodyOf M (fun _ t => M t.method) (fun a => M a.task.method)
    fun t => M t.method where
  met id method hmethod := forall_getD hmethod hM
  told_waiting hf ht := hf.forall_method ht
  told_active hf ha := hf.forall_method ha
  begun := by
    intro id t flags facts thread hmethod _ htaken
    have ht : M t.method := by
      cases htaken with
      | waiting ht => exact ht
      | new => exact hM
      | again => rwa [Task.method_flag]
    show M (Collector.beginTask facts thread flags t).method
    unfold Collector.beginTask
    rw [Collector.method_withFlags]
    show M (Collector.flagUnresolved _).method
    rw [Collector.method_flagUnresolved]
    exact forall_applyFacts hmethod (forall_getD hmethod ht)
  heard shape e _ ha := by
    rw [Compiling.method_take, Collector.method_withFlags]
    exact ha
  framed _ _ _ ha := ha
  finished _ _ _ _ _ ha := by
    rw [Collector.method_flagMisplaced, Compiling.method_finished]
    exact ha
  cut ha := by rwa [Collector.method_flagMisplaced, Collector.method_cutShort]
  forgotten ht := by rwa [Collector.method_flagMisplaced, Collector.method_cutShort]
  bridged id facts hmethod _ := by
    unfold Collector.wrapperTask
    rw [Collector.method_flagMisplaced, Collector.method_withFlags,
      Collector.method_flagUnresolved]
    exact forall_getD hmethod hM

end Collect

/-- Whatever a log says, the method of every task that it hands over is read back from the way it
is displayed. -/
theorem readsBack_of_collect (retain : Bool) (v : Vocabulary) (fragments : List Fragment) :
    ∀ t ∈ tasksOf (Collector.collect retain (fragments.map (decode v))).2, t.method.ReadsBack := by
  refine (custodyOf_method Method.readsBack_unresolved).collect retain fun e he => ?_
  obtain ⟨f, _, rfl⟩ := List.mem_map.mp he
  exact namesOnly_decode v f

end CompileLog

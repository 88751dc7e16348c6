import CompileLog.Event.Decode
import CompileLog.Markup.Reading
import CompileLog.Proofs.Collect.Decisions

/-!
# Call sites outside their callers

A call site cannot lie at or behind the end of its caller's bytecode. Where it does, the task is
flagged with the call site, its bytecode index and the size of the caller, which for a call site of
the compiled method itself is the size of that method. The call sites are checked where a task is
handed over and nowhere else, so each task carries these flags for the tree that it is handed over
with and no others, in whichever way it is handed over.
-/

namespace CompileLog

open Collect

/-! ### The check -/

/-- A call site of a tree has a bytecode index at or behind the end of its caller. -/
inductive InlineTree.LiesOutside (t : InlineTree) (node : Nat) (bci callerSize : UInt32) :
    Prop where
  /-- Its caller is the compiled method. -/
  | topLevel {n : InlineNode} (hnode : t.node? node = some n) (hbci : n.site.bci = some bci)
      (hparent : n.parent = none) (hsize : t.rootSize = some callerSize)
      (hle : callerSize ≤ bci)
  /-- Its caller is the callee of another call site. -/
  | nested {n caller : InlineNode} {parent : Nat} (hnode : t.node? node = some n)
      (hbci : n.site.bci = some bci) (hparent : n.parent = some parent)
      (hcaller : t.node? parent = some caller) (hsize : caller.site.calleeSize = some callerSize)
      (hle : callerSize ≤ bci)

namespace InlineTree

/-- A call site is found misplaced if its index and the size of its caller are known and the one is
not below the other. -/
theorem misplaced?_eq_some_iff {t : InlineTree} {n : InlineNode} {m : Misplaced} :
    t.misplaced? n = some m ↔ n.id = m.node ∧ n.site.bci = some m.bci ∧
      t.callerSize n = some m.callerSize ∧ m.callerSize ≤ m.bci := by
  obtain ⟨node, bci, callerSize⟩ := m
  unfold misplaced?
  cases n.site.bci with
  | none => simp
  | some index =>
    cases t.callerSize n with
    | none => simp
    | some size =>
      simp only
      split_ifs with hle
      · simp only [Option.some.injEq, Misplaced.mk.injEq]
        constructor
        · rintro ⟨hnode, rfl, rfl⟩
          exact ⟨hnode, rfl, rfl, hle⟩
        · rintro ⟨hnode, hbci, hsize, _⟩
          exact ⟨hnode, hbci, hsize⟩
      · simp only [Option.some.injEq, false_iff]
        rintro ⟨_, rfl, rfl, hbehind⟩
        exact hle hbehind

/-- The size of a caller is that of the compiled method, or of the callee of a call site. -/
theorem callerSize_eq_some_iff {t : InlineTree} {n : InlineNode} {size : UInt32} :
    t.callerSize n = some size ↔ n.parent = none ∧ t.rootSize = some size ∨
      ∃ parent caller, n.parent = some parent ∧ t.node? parent = some caller ∧
        caller.site.calleeSize = some size := by
  unfold callerSize
  cases n.parent with
  | none => simp
  | some parent => simp [Option.bind_eq_some_iff]

/-- The check finds the call sites that lie outside their callers, and no others. -/
theorem Linked.mem_validate_iff {t : InlineTree} (h : t.Linked) {m : Misplaced} :
    m ∈ t.validate ↔ t.LiesOutside m.node m.bci m.callerSize := by
  have hfound : m ∈ t.validate ↔ ∃ n, t.node? m.node = some n ∧ n.site.bci = some m.bci ∧
      t.callerSize n = some m.callerSize ∧ m.callerSize ≤ m.bci := by
    simp only [validate, List.mem_filterMap, misplaced?_eq_some_iff]
    constructor
    · rintro ⟨n, hn, hid, hrest⟩
      obtain ⟨i, hi⟩ := List.mem_iff_getElem?.mp hn
      rw [Array.getElem?_toList] at hi
      obtain rfl : i = m.node := (h.id_eq hi).symm.trans hid
      exact ⟨n, hi, hrest⟩
    · rintro ⟨n, hnode, hrest⟩
      obtain ⟨hlt, hn⟩ := Array.getElem?_eq_some_iff.mp hnode
      exact ⟨n, hn ▸ Array.mem_toList_iff.mpr (Array.getElem_mem hlt), h.id_eq hnode, hrest⟩
  rw [hfound]
  constructor
  · rintro ⟨n, hnode, hbci, hsize, hle⟩
    rcases callerSize_eq_some_iff.mp hsize with ⟨hparent, hroot⟩ | ⟨_, _, hparent, hcaller, hknown⟩
    · exact .topLevel hnode hbci hparent hroot hle
    · exact .nested hnode hbci hparent hcaller hknown hle
  · rintro (⟨hnode, hbci, hparent, hsize, hle⟩ | ⟨hnode, hbci, hparent, hcaller, hsize, hle⟩)
    · exact ⟨_, hnode, hbci, callerSize_eq_some_iff.mpr (.inl ⟨hparent, hsize⟩), hle⟩
    · exact ⟨_, hnode, hbci,
        callerSize_eq_some_iff.mpr (.inr ⟨_, _, hparent, hcaller, hsize⟩), hle⟩

end InlineTree

/-! ### Tasks that were not checked yet -/

/-- The call sites of a task are linked, and none of them is flagged. -/
structure Task.Unchecked (t : Task) : Prop where
  /-- The links are those of a forest. -/
  tree : t.tree.Linked
  /-- No call site is flagged as lying outside its caller. -/
  flags : ∀ node bci callerSize, .structurallyInconsistent node bci callerSize ∉ t.flags

/-- The flagged call sites of a task are those that lie outside their callers. -/
def Task.Checked (t : Task) : Prop :=
  ∀ node bci callerSize, .structurallyInconsistent node bci callerSize ∈ t.flags ↔
    t.tree.LiesOutside node bci callerSize

namespace Task.Unchecked

variable {t t' : Task}

/-- A task without flags on call sites is linked as one whose flags are on its own. -/
theorem linked (h : t.Unchecked) : t.Linked :=
  ⟨h.tree, fun node bci callerSize hf => absurd hf (h.flags node bci callerSize)⟩

/-- A linked task is unchecked as long as every flag on a call site was there before. -/
theorem of_linked (h : t.Unchecked) (hlinked : t'.Linked)
    (hflags : ∀ node bci callerSize, .structurallyInconsistent node bci callerSize ∈ t'.flags →
      .structurallyInconsistent node bci callerSize ∈ t.flags) : t'.Unchecked :=
  ⟨hlinked.tree, fun node bci callerSize hf =>
    h.flags node bci callerSize (hflags node bci callerSize hf)⟩

/-- A task of which only the number and the method are known. -/
theorem new (id : UInt64) (method : Method) : (Task.new id method).Unchecked :=
  ⟨.empty _ _, fun _ _ _ => List.not_mem_nil⟩

/-- What tells nothing of method bodies checks nothing. -/
theorem annotated (h : t.Unchecked) (ht : t.Annotated t') : t'.Unchecked := by
  refine h.of_linked (h.linked.annotated ht) fun node bci callerSize hf => ?_
  rcases ht.flags _ hf with hbefore | hnote
  · exact hbefore
  · cases hnote

/-- Noting that method bodies were not nested checks nothing. -/
theorem flagUnbalanced (h : t.Unchecked) : (t.flag .unbalancedScopes).Unchecked := by
  refine h.of_linked (h.linked.flag fun _ _ _ => TaskFlag.noConfusion)
    fun node bci callerSize hf => ?_
  exact ((t.mem_flags_flag _ _).mp hf).resolve_right TaskFlag.noConfusion

end Task.Unchecked

namespace Collect

namespace Compiling

variable {c : Compiling}

/-- What is not about method bodies only annotates the task under way. -/
theorem annotated_take (c : Compiling) (shape : Shape) {e : Event} (he : isOfBodies e = false) :
    c.task.Annotated (c.take shape e).task := by
  have htouched : ∀ t, c.touch.task.Annotated t → c.task.Annotated t := fun _ ht =>
    c.annotated_touch.trans ht
  cases e with
  | typeDef id name => cases id <;> cases name <;> exact .refl _
  | klassDef id name => cases id <;> cases name <;> exact .refl _
  | methodDef id holder name returnType arguments bytes count => cases id <;> exact .refl _
  | uncommonTrap id bci reason action stamp =>
    cases id with
    | none => exact htouched _ (.of_eq rfl rfl rfl rfl)
    | some id => exact .refl _
  | eliminateAllocation klass => exact c.annotated_openRecord _ _
  | eliminateLock lock kind => exact c.annotated_openRecord _ _
  | hotThrow preallocated reason => exact htouched _ (.of_eq rfl rfl rfl rfl)
  | phase facts => exact htouched _ (.of_eq rfl rfl rfl rfl)
  | phaseDone facts =>
    show c.task.Annotated (c.closePhase facts).task
    unfold closePhase
    split
    · exact .refl _
    · exact .of_eq rfl rfl rfl rfl
  | failure reason stamp => exact htouched _ (.of_eq rfl rfl rfl rfl)
  | close of =>
    cases of with
    | parseOpen => cases he
    | eliminateAllocation => exact c.annotated_closeRecord
    | eliminateLock => exact c.annotated_closeRecord
    | _ => exact .refl _
  | parseOpen | bytecode | call | inlineSuccess | inlineFail | intrinsic => cases he
  | _ => exact .refl _

/-- Where a method body begins no flag is noted. -/
theorem flags_openBody (c : Compiling) (method : Option UInt64) :
    (c.openBody method).task.flags = c.touch.task.flags := by
  unfold openBody
  simp only
  split
  · split <;> rfl
  · split <;> rfl

/-- Whatever an event says about the task under way, no call site is checked. -/
theorem unchecked_take (h : c.task.Unchecked) (shape : Shape) (e : Event) :
    (c.take shape e).task.Unchecked := by
  cases hbodies : isOfBodies e with
  | false => exact h.annotated (c.annotated_take shape hbodies)
  | true =>
    have htouched := h.annotated c.annotated_touch
    have hlinked := linked_take h.linked shape e
    have hparses := c.parses_take shape e
    generalize c.take shape e = c' at hparses hlinked
    cases hparses with
    | decides hdecision reason => exact htouched.of_linked hlinked fun _ _ _ hf => hf
    | opens method stamp =>
      refine htouched.of_linked hlinked fun _ _ _ hf => ?_
      rwa [flags_openBody] at hf
    | closes =>
      unfold closeBody
      split
      · exact h.flagUnbalanced
      · exact h
    | reaches opcode bci => exact h
    | calls method count inlineFlag => exact h
    | passes hother => cases hother.symm.trans hbodies

/-- Nor is one where the task ends. -/
theorem unchecked_finished (h : c.task.Unchecked) (success : Option Bool)
    (nativeSize inlinedBytes : Option UInt64) (stamp : Option Stamp) {flags : List TaskFlag}
    (hflags : Unread flags) :
    (c.finished success nativeSize inlinedBytes stamp flags).Unchecked := by
  have hnoted : (Collector.withFlags flags c.task).Unchecked := h.annotated (.withFlags hflags _)
  unfold finished
  simp only
  split
  · exact hnoted.annotated (.of_eq rfl rfl rfl rfl)
  · refine Task.Unchecked.flagUnbalanced ?_
    exact hnoted.annotated (.of_eq rfl rfl rfl rfl)

end Compiling

/-- A task that is taken to begin is unchecked. -/
theorem Taken.unchecked {id : UInt64} {t : Task} (h : Taken (fun _ => Task.Unchecked) id t) :
    t.Unchecked := by
  cases h with
  | waiting ht => exact ⟨ht.tree, fun _ _ _ hf => ht.flags _ _ _ (List.mem_of_mem_filter hf)⟩
  | new => exact .new id .unresolved
  | again => exact (Task.Unchecked.new id .unresolved).annotated (.flag _ rfl)

/-- A bridge to native code is unchecked. -/
theorem unchecked_wrapperTask (id : UInt64) (facts : NativeFacts) {flags : List TaskFlag}
    (hflags : Unread flags) : (Collector.wrapperTask id facts flags).Unchecked := by
  have hnew := Task.Unchecked.new id (facts.method.getD .unresolved)
  unfold Collector.wrapperTask
  refine Task.Unchecked.annotated ?_
    ((Task.Annotated.flagUnresolved _).trans (.withFlags hflags _))
  exact hnew.annotated (.of_eq rfl rfl rfl rfl)

/-! ### Tasks that are handed over -/

namespace Collector

/-- Noting flags adds those flags. -/
theorem mem_flags_withFlags (fs : List TaskFlag) (t : Task) (f : TaskFlag) :
    f ∈ (withFlags fs t).flags ↔ f ∈ t.flags ∨ f ∈ fs := by
  induction fs generalizing t with
  | nil => simp [withFlags]
  | cons g rest ih =>
    show f ∈ (withFlags rest (t.flag g)).flags ↔ _
    rw [ih, t.mem_flags_flag, List.mem_cons, or_assoc]

/-- Handing over an unchecked task flags the call sites that lie outside their callers, and no
others. -/
theorem checked_flagMisplaced {t : Task} (h : t.Unchecked) : (flagMisplaced t).Checked := by
  intro node bci callerSize
  have htree : (flagMisplaced t).tree = t.tree := by
    rw [flagMisplaced_eq_withFlags]
    obtain ⟨flags, heq, _⟩ := withFlags_eq (misplacedFlags t) t
    rw [heq]
  have hflag : .structurallyInconsistent node bci callerSize ∈ misplacedFlags t ↔
      ⟨node, bci, callerSize⟩ ∈ t.tree.validate := by
    simp only [misplacedFlags, List.mem_map, TaskFlag.structurallyInconsistent.injEq]
    constructor
    · rintro ⟨m, hm, rfl, rfl, rfl⟩
      exact hm
    · exact fun hm => ⟨_, hm, rfl, rfl, rfl⟩
  rw [htree, flagMisplaced_eq_withFlags, mem_flags_withFlags, hflag]
  rw [or_iff_right (h.flags node bci callerSize)]
  exact h.tree.mem_validate_iff

end Collector

/-- The tasks kept are unchecked, so those handed over are checked once. -/
theorem custody_checked :
    Custody (fun _ => Task.Unchecked) (fun c => c.task.Unchecked) Task.Checked where
  met id method := ⟨.empty _ _, fun _ _ _ hf => by simp [Collector.implicitTask] at hf⟩
  told_waiting hf h := h.annotated (.told hf _)
  told_active hf h := h.annotated (.told hf _)
  begun facts thread hflags h := h.unchecked.annotated (.beginTask facts thread hflags _)
  heard shape e hflags h := Compiling.unchecked_take (h.annotated (.withFlags hflags _)) shape e
  framed _ _ _ h := h
  finished _ _ _ _ hflags h :=
    Collector.checked_flagMisplaced (Compiling.unchecked_finished h _ _ _ _ hflags)
  cut h := Collector.checked_flagMisplaced (h.annotated (.cutShort _))
  forgotten h := Collector.checked_flagMisplaced (h.annotated (.cutShort _))
  bridged id facts hflags := Collector.checked_flagMisplaced (unchecked_wrapperTask id facts hflags)

namespace Collector

/-- Whatever a collector is given, every task that it hands over, finished or cut short, begun or
not, or a bridge to native code, is flagged for a call site, a bytecode index and a size exactly if
the call site has that index in the tree that the task is handed over with, its caller has that
size, and the index is not below it. The caller is the callee of the call site that contains it, or
for a call site that none contains the compiled method. -/
theorem misplaced_flags_exact (retain : Bool) (inputs : List Input) :
    ∀ t ∈ tasksOf (feed retain inputs).2, ∀ node bci callerSize,
      .structurallyInconsistent node bci callerSize ∈ t.flags ↔
        t.tree.LiesOutside node bci callerSize := by
  have hstart : (start retain).Holds (fun _ => Task.Unchecked) fun c => c.task.Unchecked :=
    ⟨fun id t hfound => by simp [start] at hfound, fun a ha => by cases ha⟩
  exact (Keeps.each custody_checked.keeps_give (start retain) inputs hstart).2

/-- A method of five bytecodes does not reach to the call that a log tells at the seventh. The log
ends before the task does. -/
theorem misplaced_flags_exact_cutShort :
    let log := Text.Utf8.encode ("<task compile_id='1' method='A a ()V' bytes='5'>" ++
      "<parse method='1'><bc code='182' bci='7'/><call method='2'/><inline_fail reason='cold'/>")
    let events := (Markup.read .never log).fragments.map (decode .builtin)
    ∃ t ∈ tasksOf (feed false (events.map .event ++ [.ending])).2,
      .structurallyInconsistent 0 7 5 ∈ t.flags ∧ t.tree.LiesOutside 0 7 5 := by
  intro log events
  have hflagged : ∃ t ∈ tasksOf (feed false (events.map .event ++ [.ending])).2,
      .structurallyInconsistent 0 7 5 ∈ t.flags := by
    decide +kernel
  obtain ⟨t, ht, hflag⟩ := hflagged
  exact ⟨t, ht, hflag, (misplaced_flags_exact false _ t ht 0 7 5).mp hflag⟩

end Collector

end Collect

end CompileLog

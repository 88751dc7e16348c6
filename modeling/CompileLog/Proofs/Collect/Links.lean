import CompileLog.Proofs.Collect.Waiting
import CompileLog.Proofs.InlineTree

/-!
# The call sites of every task

Decisions are the only events that add call sites to a task, each one at the place that the open
method bodies give. So whatever a log says, balanced or not, the links of every task that it hands
over are those of a forest, and a flag on a call site is on one that is there.
-/

namespace CompileLog

open Collect

/-- The call sites of a task are linked as those of a forest, and what its flags tell of call sites
they tell of its own. -/
structure Task.Linked (t : Task) : Prop where
  /-- The links are those of a forest. -/
  tree : t.tree.Linked
  /-- A flag on a call site is on one that is there. -/
  flags : ∀ node bci callerSize, .structurallyInconsistent node bci callerSize ∈ t.flags →
    node < t.tree.nodes.size

namespace Task.Linked

variable {t t' : Task}

/-- A task of which only the number and the method are known. -/
theorem new (id : UInt64) (method : Method) : (Task.new id method).Linked :=
  ⟨.empty _ _, fun _ _ _ h => absurd h List.not_mem_nil⟩

/-- What leaves the call sites alone, and adds no flag on them, leaves their links alone. -/
theorem congr (h : t.Linked) (htop : t'.tree.topLevel = t.tree.topLevel)
    (hnodes : t'.tree.nodes = t.tree.nodes)
    (hflags : ∀ node bci callerSize, .structurallyInconsistent node bci callerSize ∈ t'.flags →
      .structurallyInconsistent node bci callerSize ∈ t.flags) : t'.Linked := by
  refine ⟨h.tree.congr htop hnodes, fun node bci callerSize hf => ?_⟩
  rw [hnodes]
  exact h.flags node bci callerSize (hflags node bci callerSize hf)

/-- What tells nothing of method bodies leaves the links alone. -/
theorem annotated (h : t.Linked) (ht : t.Annotated t') : t'.Linked := by
  refine h.congr ht.topLevel_eq ht.nodes_eq fun node bci callerSize hf => ?_
  rcases ht.flags _ hf with hbefore | hnote
  · exact hbefore
  · cases hnote

/-- Noting a flag that is not on a call site. -/
theorem flag (h : t.Linked) {f : TaskFlag}
    (hf : ∀ node bci callerSize, f ≠ .structurallyInconsistent node bci callerSize) :
    (t.flag f).Linked := by
  obtain ⟨flags, heq, hfrom⟩ := t.flag_eq f
  rw [heq]
  refine h.congr rfl rfl fun node bci callerSize hmem => ?_
  exact (hfrom _ hmem).resolve_right (hf node bci callerSize).symm

/-- A decision. -/
theorem add (h : t.Linked) (parent : Option Nat) (site : CallSite) :
    { t with tree := (t.tree.add parent site).1 : Task }.Linked := by
  refine ⟨h.tree.add parent site, fun node bci callerSize hf => ?_⟩
  show node < (t.tree.add parent site).1.nodes.size
  rw [InlineTree.size_nodes_add]
  exact Nat.lt_succ_of_lt (h.flags node bci callerSize hf)

/-- Noting the call sites that lie outside their callers. -/
theorem flagMisplaced (h : t.Linked) : (Collector.flagMisplaced t).Linked := by
  rw [Collector.flagMisplaced_eq_withFlags]
  obtain ⟨flags, heq, hfrom⟩ := Collector.withFlags_eq (Collector.misplacedFlags t) t
  rw [heq]
  refine ⟨h.tree, fun node bci callerSize hf => ?_⟩
  rcases hfrom _ hf with hbefore | hnew
  · exact h.flags node bci callerSize hbefore
  · obtain ⟨m, hm, hflag⟩ := List.mem_map.mp hnew
    cases hflag
    exact h.tree.misplaced_lt_size hm

end Task.Linked

namespace Collect

namespace Compiling

variable {c : Compiling}

/-- That something was said tells nothing of method bodies. -/
theorem annotated_touch (c : Compiling) : c.task.Annotated c.touch.task := by
  unfold touch onTask
  simp only
  split
  · exact .of_eq rfl rfl rfl rfl
  · exact .refl _

/-- The end of a removed operation tells nothing of method bodies. -/
theorem annotated_closeRecord (c : Compiling) : c.task.Annotated c.closeRecord.task := by
  unfold closeRecord
  split
  · exact .of_eq rfl rfl rfl rfl
  · exact .of_eq rfl rfl rfl rfl
  · exact .refl _

/-- Nor does its begin. -/
theorem annotated_openRecord (c : Compiling) (record : OpenRecord) (shape : Shape) :
    c.task.Annotated (c.openRecord record shape).task := by
  refine c.annotated_touch.trans (c.touch.annotated_closeRecord.trans ?_)
  unfold openRecord
  simp only
  split
  · exact .refl _
  · exact annotated_closeRecord { c.touch.closeRecord with record := some record }

/-- A decision adds a call site. -/
theorem linked_decide (h : c.task.Linked) (decision : Decision) (reason : Option String) :
    (c.decide decision reason).task.Linked := by
  have htouched := h.annotated c.annotated_touch
  exact htouched.add _ _

/-- Where a method body begins no call site is added. -/
theorem linked_openBody (h : c.task.Linked) (method : Option UInt64) :
    (c.openBody method).task.Linked := by
  have htouched := h.annotated c.annotated_touch
  unfold openBody
  simp only
  split
  · cases c.touch.names.known? method with
    | none => exact htouched
    | some known => exact htouched.annotated (.of_eq rfl rfl rfl rfl)
  · split <;> exact htouched

/-- Where a method body ends none is added either. -/
theorem linked_closeBody (h : c.task.Linked) : c.closeBody.task.Linked := by
  unfold closeBody
  split
  · exact h.flag fun _ _ _ => TaskFlag.noConfusion
  · exact h

/-- Whatever an event says about the task under way, the links of its call sites stay those of a
forest. -/
theorem linked_take (h : c.task.Linked) (shape : Shape) (e : Event) :
    (c.take shape e).task.Linked := by
  have hnoted : ∀ t, c.touch.task.Annotated t → t.Linked := fun t ht =>
    h.annotated (c.annotated_touch.trans ht)
  cases e with
  | typeDef id name => cases id <;> cases name <;> exact h
  | klassDef id name => cases id <;> cases name <;> exact h
  | methodDef id holder name returnType arguments bytes count => cases id <;> exact h
  | parseOpen method stamp => exact linked_openBody h method
  | inlineSuccess reason => exact linked_decide h _ _
  | inlineFail reason => exact linked_decide h _ _
  | intrinsic name => exact linked_decide h _ _
  | uncommonTrap id bci reason action stamp =>
    cases id with
    | none => exact hnoted _ (.of_eq rfl rfl rfl rfl)
    | some id => exact h
  | eliminateAllocation klass => exact h.annotated (c.annotated_openRecord _ _)
  | eliminateLock lock kind => exact h.annotated (c.annotated_openRecord _ _)
  | hotThrow preallocated reason => exact hnoted _ (.of_eq rfl rfl rfl rfl)
  | phase facts => exact hnoted _ (.of_eq rfl rfl rfl rfl)
  | phaseDone facts =>
    show (c.closePhase facts).task.Linked
    unfold closePhase
    split
    · exact h
    · exact h.annotated (.of_eq rfl rfl rfl rfl)
  | failure reason stamp => exact hnoted _ (.of_eq rfl rfl rfl rfl)
  | close of =>
    cases of with
    | parseOpen => exact linked_closeBody h
    | eliminateAllocation => exact h.annotated c.annotated_closeRecord
    | eliminateLock => exact h.annotated c.annotated_closeRecord
    | _ => exact h
  | _ => exact h

/-- Nor does the end of a task add a call site. -/
theorem linked_finished (h : c.task.Linked) (success : Option Bool)
    (nativeSize inlinedBytes : Option UInt64) (stamp : Option Stamp) {flags : List TaskFlag}
    (hflags : Unread flags) :
    (c.finished success nativeSize inlinedBytes stamp flags).Linked := by
  have hnoted : (Collector.withFlags flags c.task).Linked := h.annotated (.withFlags hflags _)
  unfold finished
  simp only
  split
  · exact hnoted.annotated (.of_eq rfl rfl rfl rfl)
  · refine Task.Linked.flag ?_ fun _ _ _ => TaskFlag.noConfusion
    exact hnoted.annotated (.of_eq rfl rfl rfl rfl)

end Compiling

/-- A task that is taken to begin has its call sites linked. -/
theorem Taken.linked {id : UInt64} {t : Task} (h : Taken (fun _ => Task.Linked) id t) :
    t.Linked := by
  cases h with
  | waiting ht => exact ht.congr rfl rfl fun _ _ _ => List.mem_of_mem_filter
  | new => exact .new id .unresolved
  | again => exact (Task.Linked.new id .unresolved).annotated (.flag _ rfl)

/-- A bridge to native code has no call sites. -/
theorem linked_wrapperTask (id : UInt64) (facts : NativeFacts) {flags : List TaskFlag}
    (hflags : Unread flags) : (Collector.wrapperTask id facts flags).Linked := by
  have hnew := Task.Linked.new id (facts.method.getD .unresolved)
  unfold Collector.wrapperTask
  refine Task.Linked.annotated ?_ ((Task.Annotated.flagUnresolved _).trans (.withFlags hflags _))
  exact hnew.annotated (.of_eq rfl rfl rfl rfl)

/-- The links of a task are those of a forest from the first word on. -/
theorem custody_linked :
    Custody (fun _ => Task.Linked) (fun c => c.task.Linked) Task.Linked where
  met id method := (Task.Linked.new id (method.getD .unresolved)).congr rfl rfl fun _ _ _ hf => by
    simp [Collector.implicitTask] at hf
  told_waiting hf h := h.annotated (.told hf _)
  told_active hf h := h.annotated (.told hf _)
  begun facts thread hflags h := h.linked.annotated (.beginTask facts thread hflags _)
  heard shape e hflags h := Compiling.linked_take (h.annotated (.withFlags hflags _)) shape e
  framed _ _ _ h := h
  finished _ _ _ _ hflags h := (Compiling.linked_finished h _ _ _ _ hflags).flagMisplaced
  cut h := (h.annotated (.cutShort _)).flagMisplaced
  forgotten h := (h.annotated (.cutShort _)).flagMisplaced
  bridged id facts hflags := (linked_wrapperTask id facts hflags).flagMisplaced

/-- Whatever a log says, the links of every task that it hands over are those of a forest. -/
theorem linked_of_collect (retain : Bool) (events : List LogEvent) :
    ∀ t ∈ tasksOf (Collector.collect retain events).2, t.Linked :=
  custody_linked.collect retain events

end Collect

end CompileLog

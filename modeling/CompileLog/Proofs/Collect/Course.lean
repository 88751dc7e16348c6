import CompileLog.Proofs.Collect.Custody

/-!
# The course of a task

Of the flags that a task carries, three mark its course: that something was said of it before it
began, that it did not come to its end, and that its number was used before. Whatever a log tells
of a task that is kept, these marks stay, and so do its number and its outcome. Only a failure
changes the outcome. So what the start and the end of a task say about them is what the task is
handed over with.
-/

namespace CompileLog

open Collect

/-- Whether a flag marks the course of a task. -/
def TaskFlag.isMark : TaskFlag → Bool
  | .implicitlyOpened | .incomplete | .duplicateCompileId => true
  | _ => false

/-- Whether an event tells that a compilation failed. -/
def Event.isFailure : Event → Bool
  | .failure .. => true
  | _ => false

/-- Two tasks with the same number and the same marks. -/
structure Task.SameMarks (t t' : Task) : Prop where
  /-- The number is the same. -/
  compileId_eq : t'.compileId = t.compileId
  /-- The marks are the same. -/
  mark_iff : ∀ f : TaskFlag, f.isMark = true → (f ∈ t'.flags ↔ f ∈ t.flags)

/-- Two tasks that also have the same outcome. -/
structure Task.SameCourse (t t' : Task) : Prop extends Task.SameMarks t t' where
  /-- The outcome is the same. -/
  outcome_eq : t'.outcome = t.outcome

namespace Task.SameMarks

variable {t t' t'' : Task}

/-- What leaves the number and the flags alone leaves the marks alone. -/
theorem of_eq (hid : t'.compileId = t.compileId) (hflags : t'.flags = t.flags) :
    t.SameMarks t' :=
  ⟨hid, fun f _ => by rw [hflags]⟩

/-- Something was told, and then something else. -/
theorem trans (h : t.SameMarks t') (h' : t'.SameMarks t'') : t.SameMarks t'' :=
  ⟨h'.compileId_eq.trans h.compileId_eq,
    fun f hf => (h'.mark_iff f hf).trans (h.mark_iff f hf)⟩

end Task.SameMarks

/-- Two tasks with the same number, of which both or neither is flagged as having one that was used
before. -/
structure Task.SameNumber (t t' : Task) : Prop where
  /-- The number is the same. -/
  compileId_eq : t'.compileId = t.compileId
  /-- The flag is the same. -/
  duplicate_iff : .duplicateCompileId ∈ t'.flags ↔ .duplicateCompileId ∈ t.flags

/-- Tasks with the same marks have the same number. -/
theorem Task.SameMarks.sameNumber {t t' : Task} (h : t.SameMarks t') : t.SameNumber t' :=
  ⟨h.compileId_eq, h.mark_iff _ rfl⟩

/-- Noting a flag adds that flag. -/
theorem Task.mem_flags_flag (t : Task) (f g : TaskFlag) :
    g ∈ (t.flag f).flags ↔ g ∈ t.flags ∨ g = f := by
  unfold flag
  split
  · next hmem =>
    refine ⟨.inl, fun h => h.elim id fun heq => ?_⟩
    rw [heq]
    exact hmem
  · rw [List.mem_append, List.mem_singleton]

/-- The first flag of a new task. -/
theorem Task.flag_new (id : UInt64) (method : Method) (f : TaskFlag) :
    (Task.new id method).flag f = { Task.new id method with flags := [f] } := rfl

/-- A task that is cut short keeps its number, its outcome and its flags, and is also flagged as
incomplete. -/
theorem Collect.Collector.cutShort_course (t : Task) :
    (cutShort t).compileId = t.compileId ∧ (cutShort t).outcome = t.outcome ∧
      ∀ f, f ∈ (cutShort t).flags ↔ f ∈ t.flags ∨ f = .incomplete := by
  unfold cutShort
  obtain ⟨flags, heq, _⟩ := Task.flag_eq { t with state := .abandoned } .incomplete
  refine ⟨?_, ?_, fun f => Task.mem_flags_flag _ _ f⟩ <;> rw [heq]

namespace Task.SameCourse

variable {t t' t'' : Task}

/-- What leaves the number, the outcome and the flags alone leaves the course alone. -/
theorem of_eq (hid : t'.compileId = t.compileId) (houtcome : t'.outcome = t.outcome)
    (hflags : t'.flags = t.flags) : t.SameCourse t' :=
  ⟨.of_eq hid hflags, houtcome⟩

/-- Nothing was told. -/
theorem refl (t : Task) : t.SameCourse t := of_eq rfl rfl rfl

/-- Something was told, and then something else. -/
theorem trans (h : t.SameCourse t') (h' : t'.SameCourse t'') : t.SameCourse t'' :=
  ⟨h.toSameMarks.trans h'.toSameMarks, h'.outcome_eq.trans h.outcome_eq⟩

/-- Noting flags that mark nothing. -/
theorem withFlags {flags : List TaskFlag} (hflags : ∀ f ∈ flags, f.isMark = false) (t : Task) :
    t.SameCourse (Collector.withFlags flags t) := by
  obtain ⟨flags', heq, hfrom⟩ := Collector.withFlags_eq flags t
  have hkept := Collector.subset_withFlags flags t
  rw [heq] at hkept ⊢
  refine ⟨⟨rfl, fun f hf => ⟨fun hmem => ?_, fun hmem => hkept hmem⟩⟩, rfl⟩
  rcases hfrom f hmem with hbefore | hnew
  · exact hbefore
  · rw [hflags f hnew] at hf
    cases hf

/-- Noting a flag that marks nothing. -/
theorem flag {f : TaskFlag} (hf : f.isMark = false) (t : Task) : t.SameCourse (t.flag f) := by
  have hone : ∀ g ∈ [f], g.isMark = false := fun _ hg => List.mem_singleton.mp hg ▸ hf
  exact withFlags hone t

/-- Noting what could not be read. -/
theorem withUnread {flags : List TaskFlag} (hflags : Unread flags) (t : Task) :
    t.SameCourse (Collector.withFlags flags t) := by
  refine withFlags (fun f hf => ?_) t
  obtain ⟨tag, attr, raw, rfl⟩ := hflags f hf
  rfl

/-- Noting that the method is not known. -/
theorem flagUnresolved (t : Task) : t.SameCourse (Collector.flagUnresolved t) := by
  unfold Collector.flagUnresolved
  split
  · exact flag rfl t
  · exact refl t

/-- Noting the call sites that lie outside their callers. -/
theorem flagMisplaced (t : Task) : t.SameCourse (Collector.flagMisplaced t) := by
  rw [Collector.flagMisplaced_eq_withFlags]
  refine withFlags (fun f hf => ?_) t
  obtain ⟨m, _, rfl⟩ := List.mem_map.mp hf
  rfl

/-- A listing that may not be kept. -/
theorem addListing (retain : Bool) (l : Listing) (t : Task) :
    t.SameCourse (Collector.addListing retain l t) := by
  have hattached : t.SameCourse (t.attachListing l) := by
    unfold Task.attachListing
    split
    · exact of_eq rfl rfl rfl
    · exact flag rfl t
  unfold Collector.addListing
  refine hattached.trans ?_
  split
  · exact refl _
  · exact of_eq rfl rfl rfl

/-- Whatever may be told of a task whether it has begun or not. -/
theorem told {f : Task → Task} (hf : Told f) (t : Task) : t.SameCourse (f t) := by
  cases hf with
  | queued facts hflags =>
    refine trans ?_ (withUnread hflags _)
    exact of_eq rfl rfl rfl
  | installed facts hflags =>
    unfold Collector.install
    refine trans ?_ (withUnread hflags _)
    split <;> exact of_eq rfl rfl rfl
  | printed retain l => exact addListing retain l t

/-- What is said where a task begins. -/
theorem beginTask (facts : TaskFacts) (thread : Option String) {flags : List TaskFlag}
    (hflags : Unread flags) (t : Task) :
    t.SameCourse (Collector.beginTask facts thread flags t) := by
  unfold Collector.beginTask
  simp only
  generalize hnamed : Collector.flagUnresolved _ = named
  have hbefore : t.SameCourse named := by
    rw [← hnamed]
    refine trans ?_ (flagUnresolved _)
    exact of_eq rfl rfl rfl
  have hrooted : named.SameCourse
      { named with tree := named.tree.withRoot named.method named.bytecodeSize } :=
    of_eq rfl rfl rfl
  exact (hbefore.trans hrooted).trans (withUnread hflags _)

end Task.SameCourse

/-- A bridge to native code has the number that it is given, succeeded, and carries no mark. -/
theorem Collect.Collector.wrapperTask_course (id : UInt64) (facts : NativeFacts)
    {flags : List TaskFlag} (hflags : Unread flags) :
    (flagMisplaced (wrapperTask id facts flags)).compileId = id ∧
      (flagMisplaced (wrapperTask id facts flags)).outcome = .succeeded ∧
      ∀ f : TaskFlag, f.isMark = true → f ∉ (flagMisplaced (wrapperTask id facts flags)).flags := by
  have hnoted : ∀ t : Task, t.SameCourse (flagMisplaced (withFlags flags (flagUnresolved t))) :=
    fun t => (Task.SameCourse.flagUnresolved t).trans
      ((Task.SameCourse.withUnread hflags _).trans (.flagMisplaced _))
  unfold wrapperTask
  refine ⟨(hnoted _).compileId_eq, (hnoted _).outcome_eq, fun f hf hmem => ?_⟩
  cases ((hnoted _).mark_iff f hf).mp hmem

/-- A task that is cut short keeps its number. -/
theorem Task.SameNumber.cutShort (t : Task) :
    t.SameNumber (Collector.flagMisplaced (Collector.cutShort t)) := by
  obtain ⟨hid, _, hflags⟩ := Collector.cutShort_course t
  have hsame := (SameCourse.flagMisplaced (Collector.cutShort t)).sameNumber
  refine ⟨hsame.compileId_eq.trans hid, hsame.duplicate_iff.trans ?_⟩
  rw [hflags]
  exact or_iff_left TaskFlag.noConfusion

namespace Collect.Compiling

variable (c : Compiling)

/-- Noting that something was said. -/
theorem sameCourse_touch : c.task.SameCourse c.touch.task := by
  unfold touch onTask
  simp only
  split
  · exact .of_eq rfl rfl rfl
  · exact .refl _

/-- A decision on a call. -/
theorem sameCourse_decide (decision : Decision) (reason : Option String) :
    c.task.SameCourse (c.decide decision reason).task :=
  c.sameCourse_touch.trans (.of_eq rfl rfl rfl)

/-- The begin of a method body. -/
theorem sameCourse_openBody (method : Option UInt64) :
    c.task.SameCourse (c.openBody method).task := by
  refine c.sameCourse_touch.trans ?_
  unfold openBody
  simp only
  split
  · cases c.touch.names.known? method <;> exact .of_eq rfl rfl rfl
  · split <;> exact .refl _

/-- The end of a method body. -/
theorem sameCourse_closeBody : c.task.SameCourse c.closeBody.task := by
  unfold closeBody
  split
  · exact .flag rfl _
  · exact .refl _

/-- The end of a removed operation. -/
theorem sameCourse_closeRecord : c.task.SameCourse c.closeRecord.task := by
  unfold closeRecord
  split <;> exact .of_eq rfl rfl rfl

/-- The begin of a removed operation. -/
theorem sameCourse_openRecord (record : OpenRecord) (shape : Shape) :
    c.task.SameCourse (c.openRecord record shape).task := by
  refine c.sameCourse_touch.trans (c.touch.sameCourse_closeRecord.trans ?_)
  unfold openRecord
  simp only
  split
  · exact .refl _
  · exact sameCourse_closeRecord { c.touch.closeRecord with record := some record }

/-- The end of a phase. -/
theorem sameCourse_closePhase (facts : PhaseFacts) :
    c.task.SameCourse (c.closePhase facts).task := by
  unfold closePhase
  split <;> exact .of_eq rfl rfl rfl

/-- What an event says about the task under way leaves its course alone, unless the event is a
failure. -/
theorem sameCourse_take (shape : Shape) {e : Event} (he : e.isFailure = false) :
    c.task.SameCourse (c.take shape e).task := by
  have htouched : ∀ f : Task → Task, (∀ t : Task, t.SameCourse (f t)) →
      c.task.SameCourse (c.touch.onTask f).task :=
    fun f hf => c.sameCourse_touch.trans (hf _)
  cases e with
  | failure reason stamp => cases he
  | typeDef id name => cases id <;> cases name <;> exact .refl _
  | klassDef id name => cases id <;> cases name <;> exact .refl _
  | methodDef id holder name returnType arguments bytes count => cases id <;> exact .refl _
  | parseOpen method stamp => exact c.sameCourse_openBody method
  | inlineSuccess reason => exact c.sameCourse_decide _ _
  | inlineFail reason => exact c.sameCourse_decide _ _
  | intrinsic name => exact c.sameCourse_decide _ _
  | uncommonTrap id bci reason action stamp =>
    cases id with
    | none => exact htouched _ fun t => .of_eq rfl rfl rfl
    | some id => exact .refl _
  | eliminateAllocation klass => exact c.sameCourse_openRecord _ _
  | eliminateLock lock kind => exact c.sameCourse_openRecord _ _
  | hotThrow preallocated reason => exact htouched _ fun t => .of_eq rfl rfl rfl
  | phase facts => exact c.sameCourse_touch.trans (.of_eq rfl rfl rfl)
  | phaseDone facts => exact c.sameCourse_closePhase facts
  | close of =>
    cases of with
    | parseOpen => exact c.sameCourse_closeBody
    | eliminateAllocation => exact c.sameCourse_closeRecord
    | eliminateLock => exact c.sameCourse_closeRecord
    | _ => exact .refl _
  | _ => exact .refl _

/-- A failure leaves the marks of the task under way alone and tells the outcome. -/
theorem take_failure (shape : Shape) (reason : Option String) (stamp : Option Stamp) :
    c.task.SameMarks (c.take shape (.failure reason stamp)).task ∧
      (c.take shape (.failure reason stamp)).task.outcome = .failed reason :=
  ⟨c.sameCourse_touch.toSameMarks.trans (.of_eq rfl rfl), rfl⟩

/-- The end of a task leaves its marks alone. The outcome was told before, or is told there. -/
theorem finished_course (success : Option Bool) (nativeSize inlinedBytes : Option UInt64)
    (stamp : Option Stamp) {flags : List TaskFlag} (hflags : Unread flags) :
    c.task.SameMarks (c.finished success nativeSize inlinedBytes stamp flags) ∧
      (c.finished success nativeSize inlinedBytes stamp flags).outcome =
        Collector.finalOutcome success c.task.outcome := by
  have hnoted := Task.SameCourse.withUnread hflags c.task
  unfold finished
  simp only
  rw [hnoted.outcome_eq]
  split
  · exact ⟨hnoted.toSameMarks.trans (.of_eq rfl rfl), rfl⟩
  · have hflagged := Task.SameCourse.flag (f := .unbalancedScopes) rfl
    refine ⟨hnoted.toSameMarks.trans (.trans ?_ (hflagged _).toSameMarks),
      (hflagged _).outcome_eq⟩
    exact .of_eq rfl rfl

end Collect.Compiling

end CompileLog

import CompileLog.Proofs.Collect.Parse

/-!
# Tasks on their way to the handover

Nearly everything that a log says about a task adds to it. Its number stays, so do the stamps of
its queueing and its start, and whether it was met before it began. Installed code that is known
stays known. Only the queueing and the start of a task change these, so a task is handed over with
the stamps that it was given there.
-/

namespace CompileLog

open Collect

/-- One task is another of which more was told. -/
structure Task.Becomes (t t' : Task) : Prop where
  /-- The number stays. -/
  compileId_eq : t'.compileId = t.compileId
  /-- The stamp of the start stays. -/
  startedAt_eq : t'.startedAt = t.startedAt
  /-- The stamp of the queueing stays. -/
  queuedAt_eq : t'.queuedAt = t.queuedAt
  /-- Whether something was said before the start stays. -/
  implicit_iff : .implicitlyOpened ∈ t'.flags ↔ .implicitlyOpened ∈ t.flags
  /-- Installed code stays known. -/
  native_isSome : t.native.isSome = true → t'.native.isSome = true

namespace Task.Becomes

variable {t t' t'' : Task}

/-- Nothing more was told. -/
theorem refl (t : Task) : t.Becomes t := ⟨rfl, rfl, rfl, .rfl, id⟩

/-- More was told, and then still more. -/
theorem trans (h : t.Becomes t') (h' : t'.Becomes t'') : t.Becomes t'' :=
  ⟨h'.compileId_eq.trans h.compileId_eq, h'.startedAt_eq.trans h.startedAt_eq,
    h'.queuedAt_eq.trans h.queuedAt_eq, h'.implicit_iff.trans h.implicit_iff,
    fun hn => h'.native_isSome (h.native_isSome hn)⟩

/-- Noting another flag. -/
theorem flag (t : Task) {f : TaskFlag} (hf : f ≠ .implicitlyOpened) : t.Becomes (t.flag f) := by
  unfold Task.flag
  split
  · exact refl t
  · refine ⟨rfl, rfl, rfl, ?_, id⟩
    rw [List.mem_append, List.mem_singleton]
    exact ⟨fun h => h.resolve_right hf.symm, .inl⟩

/-- Noting other flags. -/
theorem withFlags {flags : List TaskFlag} (hflags : .implicitlyOpened ∉ flags) (t : Task) :
    t.Becomes (Collector.withFlags flags t) := by
  induction flags generalizing t with
  | nil => exact refl t
  | cons f rest ih =>
    have hf : f ≠ .implicitlyOpened := fun h => hflags (h ▸ List.mem_cons_self)
    exact (flag t hf).trans (ih (fun h => hflags (List.mem_cons_of_mem f h)) (t.flag f))

/-- Noting that the method is not known. -/
theorem flagUnresolved (t : Task) : t.Becomes (Collector.flagUnresolved t) := by
  unfold Collector.flagUnresolved
  split
  · exact flag t TaskFlag.noConfusion
  · exact refl t

/-- A listing. -/
theorem attachListing (l : Listing) (t : Task) : t.Becomes (t.attachListing l) := by
  unfold Task.attachListing
  split
  · exact ⟨rfl, rfl, rfl, .rfl, fun _ => rfl⟩
  · exact flag t TaskFlag.noConfusion

/-- A listing that may not be kept. -/
theorem addListing (retain : Bool) (l : Listing) (t : Task) :
    t.Becomes (Collector.addListing retain l t) := by
  unfold Collector.addListing
  refine (attachListing l t).trans ?_
  split
  · exact refl _
  · exact ⟨rfl, rfl, rfl, .rfl, fun hn => by simpa using hn⟩

/-- Installed code. -/
theorem install (facts : NativeFacts) {flags : List TaskFlag}
    (hflags : .implicitlyOpened ∉ flags) (t : Task) :
    t.Becomes (Collector.install facts flags t) := by
  unfold Collector.install
  refine trans ?_ (withFlags hflags _)
  split <;> exact ⟨rfl, rfl, rfl, .rfl, fun _ => rfl⟩

/-- The end of a task that was cut short. -/
theorem cutShort (t : Task) : t.Becomes (Collector.cutShort t) := by
  have hended : t.Becomes { t with state := TaskState.abandoned } := ⟨rfl, rfl, rfl, .rfl, id⟩
  exact hended.trans (flag _ TaskFlag.noConfusion)

end Task.Becomes

/-- Noting the call sites that lie outside their callers. -/
theorem Task.Becomes.flagMisplaced (t : Task) : t.Becomes (Collector.flagMisplaced t) := by
  rw [Collector.flagMisplaced_eq_withFlags]
  refine withFlags (fun hmem => ?_) t
  obtain ⟨m, _, hm⟩ := List.mem_map.mp hmem
  cases hm

/-- What could not be read says nothing of what came before the start. -/
theorem Collect.Collector.implicitlyOpened_notMem_unreadFlags (e : LogEvent) :
    TaskFlag.implicitlyOpened ∉ unreadFlags e := by
  unfold unreadFlags
  intro hmem
  obtain ⟨u, _, heq⟩ := List.mem_map.mp hmem
  cases heq

namespace Collect.Compiling

variable (c : Compiling)

/-- Noting that something was said. -/
theorem becomes_touch : c.task.Becomes c.touch.task := by
  unfold touch onTask
  simp only
  split
  · exact ⟨rfl, rfl, rfl, .rfl, id⟩
  · exact .refl _

/-- A decision on a call. -/
theorem becomes_decide (decision : Decision) (reason : Option String) :
    c.task.Becomes (c.decide decision reason).task :=
  c.becomes_touch.trans ⟨rfl, rfl, rfl, .rfl, id⟩

/-- The begin of a method body. -/
theorem becomes_openBody (method : Option UInt64) :
    c.task.Becomes (c.openBody method).task := by
  refine c.becomes_touch.trans ?_
  unfold openBody
  simp only
  split
  · cases c.touch.names.known? method <;> exact ⟨rfl, rfl, rfl, .rfl, id⟩
  · split <;> exact .refl _

/-- The end of a method body. -/
theorem becomes_closeBody : c.task.Becomes c.closeBody.task := by
  unfold closeBody
  split
  · exact .flag _ TaskFlag.noConfusion
  · exact .refl _

/-- The end of a removed operation. -/
theorem becomes_closeRecord : c.task.Becomes c.closeRecord.task := by
  unfold closeRecord
  split <;> exact ⟨rfl, rfl, rfl, .rfl, id⟩

/-- The begin of a removed operation. -/
theorem becomes_openRecord (record : OpenRecord) (shape : Shape) :
    c.task.Becomes (c.openRecord record shape).task := by
  refine c.becomes_touch.trans (c.touch.becomes_closeRecord.trans ?_)
  unfold openRecord
  simp only
  split
  · exact .refl _
  · exact becomes_closeRecord { c.touch.closeRecord with record := some record }

/-- The end of a phase. -/
theorem becomes_closePhase (facts : PhaseFacts) : c.task.Becomes (c.closePhase facts).task := by
  unfold closePhase
  split <;> exact ⟨rfl, rfl, rfl, .rfl, id⟩

/-- Whatever an event says about the task under way, it stays that task. -/
theorem becomes_take (shape : Shape) (e : Event) : c.task.Becomes (c.take shape e).task := by
  have htouched : ∀ f : Task → Task, (∀ t : Task, t.Becomes (f t)) →
      c.task.Becomes (c.touch.onTask f).task :=
    fun f hf => c.becomes_touch.trans (hf _)
  cases e with
  | typeDef id name => cases id <;> cases name <;> exact .refl _
  | klassDef id name => cases id <;> cases name <;> exact .refl _
  | methodDef id holder name returnType arguments bytes count => cases id <;> exact .refl _
  | parseOpen method stamp => exact c.becomes_openBody method
  | inlineSuccess reason => exact c.becomes_decide _ _
  | inlineFail reason => exact c.becomes_decide _ _
  | intrinsic name => exact c.becomes_decide _ _
  | uncommonTrap id bci reason action stamp =>
    cases id with
    | none => exact htouched _ fun t => ⟨rfl, rfl, rfl, .rfl, id⟩
    | some id => exact .refl _
  | eliminateAllocation klass => exact c.becomes_openRecord _ _
  | eliminateLock lock kind => exact c.becomes_openRecord _ _
  | hotThrow preallocated reason => exact htouched _ fun t => ⟨rfl, rfl, rfl, .rfl, id⟩
  | phase facts => exact c.becomes_touch.trans ⟨rfl, rfl, rfl, .rfl, id⟩
  | phaseDone facts => exact c.becomes_closePhase facts
  | failure reason stamp => exact htouched _ fun t => ⟨rfl, rfl, rfl, .rfl, id⟩
  | close of =>
    cases of with
    | parseOpen => exact c.becomes_closeBody
    | eliminateAllocation => exact c.becomes_closeRecord
    | eliminateLock => exact c.becomes_closeRecord
    | _ => exact .refl _
  | _ => exact .refl _

/-- The task once it is finished. -/
def finished (success : Option Bool) (nativeSize inlinedBytes : Option UInt64)
    (stamp : Option Stamp) (flags : List TaskFlag) : Task :=
  let t := Collector.withFlags flags c.task
  let t := { t with
    finishedAt := stamp
    nativeSize := nativeSize.or t.nativeSize
    inlinedBytes
    outcome := Collector.finalOutcome success t.outcome
    state := .closed }
  if c.bodies.isEmpty then t else t.flag .unbalancedScopes

/-- Once it is finished it is still that task. -/
theorem becomes_finished (success : Option Bool) (nativeSize inlinedBytes : Option UInt64)
    (stamp : Option Stamp) {flags : List TaskFlag} (hflags : .implicitlyOpened ∉ flags) :
    c.task.Becomes (c.finished success nativeSize inlinedBytes stamp flags) ∧
      (c.finished success nativeSize inlinedBytes stamp flags).state = .closed := by
  have hnoted := Task.Becomes.withFlags hflags c.task
  unfold finished
  simp only
  split
  · exact ⟨hnoted.trans ⟨rfl, rfl, rfl, .rfl, id⟩, rfl⟩
  · obtain ⟨flags', heq, _⟩ := Task.flag_eq _ TaskFlag.unbalancedScopes
    refine ⟨.trans (hnoted.trans ?_) (.flag _ TaskFlag.noConfusion), ?_⟩
    · exact ⟨rfl, rfl, rfl, .rfl, id⟩
    · rw [heq]

end Collect.Compiling

/-! ### What is handed over -/

namespace Collect

/-- The task that is handed over, if it is one. -/
def Item.task? : Item → Option Task
  | .task t => some t
  | _ => none

/-- The tasks among what is handed over. -/
def tasksOf (items : List Item) : List Task := items.filterMap Item.task?

/-- Where nothing is handed over there is no task. -/
@[simp] theorem tasksOf_nil : tasksOf [] = [] := rfl

/-- The tasks of what is handed over first come first. -/
@[simp] theorem tasksOf_append (first second : List Item) :
    tasksOf (first ++ second) = tasksOf first ++ tasksOf second := List.filterMap_append

/-- The event that is handed over, if one is. -/
def Item.deopt? : Item → Option Deopt
  | .deopt d => some d
  | _ => none

/-- The events at run time among what is handed over. -/
def deoptsOf (items : List Item) : List Deopt := items.filterMap Item.deopt?

/-- Where nothing is handed over there is no event. -/
@[simp] theorem deoptsOf_nil : deoptsOf [] = [] := rfl

/-- The events of what is handed over first come first. -/
@[simp] theorem deoptsOf_append (first second : List Item) :
    deoptsOf (first ++ second) = deoptsOf first ++ deoptsOf second := List.filterMap_append

namespace Collector

/-- A task that is cut short is abandoned and flagged as incomplete. -/
theorem cutShort_abandoned (t : Task) :
    (cutShort t).state = .abandoned ∧ .incomplete ∈ (cutShort t).flags := by
  unfold cutShort Task.flag
  split
  · exact ⟨rfl, by assumption⟩
  · exact ⟨rfl, List.mem_append_right _ (List.mem_singleton.mpr rfl)⟩

/-- Noting the call sites that lie outside their callers leaves the state alone. -/
theorem state_flagMisplaced (t : Task) : (flagMisplaced t).state = t.state := by
  rw [flagMisplaced_eq_withFlags]
  obtain ⟨flags, heq, _⟩ := withFlags_eq (misplacedFlags t) t
  rw [heq]

/-- Handing over a task hands over that task, once its call sites are checked. -/
theorem tasksOf_handOver (c : Collector) (t : Task) :
    tasksOf (c.handOver t).2 = [flagMisplaced t] := rfl

/-- The task under way is handed over finished, behind a sample of the code cache if one is
known. -/
theorem finishTask_eq_of_active {c : Collector} {a : Compiling} (hactive : c.active = some a)
    (success : Option Bool) (nativeSize inlinedBytes : Option UInt64) (stamp : Option Stamp)
    (flags : List TaskFlag) :
    c.finishTask success nativeSize inlinedBytes stamp flags =
      (({ c with active := none }.handOver
          (a.finished success nativeSize inlinedBytes stamp flags)).1,
        (if a.freeCodeCache.isSome then
          [.codeCache ⟨(a.finished success nativeSize inlinedBytes stamp flags).compileId, stamp,
            nativeSize, a.freeCodeCache⟩]
        else []) ++
          ({ c with active := none }.handOver
            (a.finished success nativeSize inlinedBytes stamp flags)).2) := by
  unfold finishTask
  rw [hactive]
  rfl

/-- The task under way is handed over finished, behind a sample of the code cache or nothing. -/
theorem finishTask_of_active {c : Collector} {a : Compiling} (hactive : c.active = some a)
    (success : Option Bool) (nativeSize inlinedBytes : Option UInt64) (stamp : Option Stamp)
    (flags : List TaskFlag) :
    ∃ sample, tasksOf sample = [] ∧
      c.finishTask success nativeSize inlinedBytes stamp flags =
        (({ c with active := none }.handOver
            (a.finished success nativeSize inlinedBytes stamp flags)).1,
          sample ++ ({ c with active := none }.handOver
            (a.finished success nativeSize inlinedBytes stamp flags)).2) := by
  refine ⟨_, ?_, finishTask_eq_of_active hactive success nativeSize inlinedBytes stamp flags⟩
  split <;> rfl

/-- The task under way has the number that it is looked up by. -/
theorem compileId_of_activeWith? {c : Collector} {id : UInt64} {a : Compiling}
    (h : c.activeWith? id = some a) : c.active = some a ∧ a.task.compileId = id := by
  obtain ⟨hactive, hid⟩ := Option.filter_eq_some_iff.mp h
  exact ⟨hactive, of_decide_eq_true hid⟩

/-- A changed task that is not handed over is put back where it was: it is under way, or waits. -/
theorem putTask_cases {c : Collector} {id : UInt64} {t : Task} (hopen : c.openTask? id = some t)
    (t' : Task) :
    (∃ a, c.active = some a ∧ a.task = t ∧ t.compileId = id ∧
      c.putTask id t' = { c with active := some { a with task := t' } }) ∨
    (c.activeWith? id = none ∧ c.waiting.get? id = some t ∧
      c.putTask id t' = { c with waiting := c.waiting.insert id t' }) := by
  unfold openTask? at hopen
  unfold putTask
  cases hactive : c.activeWith? id with
  | some a =>
    obtain ⟨hunderway, hid⟩ := compileId_of_activeWith? hactive
    obtain rfl : a.task = t := by simpa [hactive] using hopen
    exact .inl ⟨a, hunderway, rfl, hid, rfl⟩
  | none => exact .inr ⟨rfl, by simpa [hactive] using hopen, rfl⟩

/-- What is told of a task changes the one with its number that is not handed over, or lets a new
one wait. -/
theorem onTask_cases (c : Collector) (id : UInt64) (method : Option Method) (f : Task → Task) :
    (∃ t, c.openTask? id = some t ∧ c.onTask id method f = c.putTask id (f t)) ∨
    (c.openTask? id = none ∧ c.onTask id method f =
      { c.count fun n => { n with implicit := n.implicit + 1 } with
        waiting := c.waiting.insert id (f (implicitTask id method)) }) := by
  unfold onTask
  cases hopen : c.openTask? id with
  | some t => exact .inl ⟨t, rfl, rfl⟩
  | none =>
    have hactive : (c.count fun n => { n with implicit := n.implicit + 1 }).activeWith? id =
        none := Option.map_eq_none_iff.mp (Option.or_eq_none_iff.mp hopen).1
    refine .inr ⟨rfl, ?_⟩
    simp only [putTask, hactive]
    rfl

/-- A task with what is said where it is queued. -/
def noteQueued (facts : TaskFacts) (flags : List TaskFlag) (t : Task) : Task :=
  withFlags flags
    { applyFacts facts t with queuedAt := (applyFacts facts t).queuedAt.or facts.stamp }

/-- Code that is installed is late for a task that was handed over, may be a bridge of which
nothing else was said, and is else told to its task. Its address is noted before. -/
theorem installCode_eq (c : Collector) {facts : NativeFacts} {id : UInt64}
    (hid : facts.compileId = some id) (flags : List TaskFlag) :
    ∃ addresses, c.installCode facts flags =
      if Collector.isHandedOver { c with addresses } id then
        ({ c with addresses }, [.lateNative id (nativeOf facts)])
      else if CompileKind.ofLog facts.compileKind none = .nativeWrapper ∧
          (Collector.openTask? { c with addresses } id).isNone then
        Collector.handOver { c with addresses } (wrapperTask id facts flags)
      else (Collector.onTask { c with addresses } id facts.method (install facts flags), []) := by
  unfold installCode
  rw [hid]
  cases facts.address with
  | none => exact ⟨c.addresses, rfl⟩
  | some address => exact ⟨c.addresses.insert address id, rfl⟩

/-- What becomes of code that is installed: without a number it is out of place, it is late, it is
that of a bridge, or it is told to its task. -/
theorem installCode_cases (c : Collector) (facts : NativeFacts) (flags : List TaskFlag) :
    c.installCode facts flags = (c.countStray, []) ∨
    ∃ id addresses,
      (c.isHandedOver id = true ∧
        c.installCode facts flags =
          ({ c with addresses }, [.lateNative id (nativeOf facts)])) ∨
      (c.isHandedOver id = false ∧ c.openTask? id = none ∧
        c.installCode facts flags =
          Collector.handOver { c with addresses } (wrapperTask id facts flags)) ∨
      (c.isHandedOver id = false ∧
        c.installCode facts flags =
          (Collector.onTask { c with addresses } id facts.method (install facts flags), [])) := by
  cases hid : facts.compileId with
  | none =>
    unfold installCode
    rw [hid]
    exact .inl rfl
  | some id =>
    obtain ⟨addresses, heq⟩ := c.installCode_eq hid flags
    refine .inr ⟨id, addresses, ?_⟩
    split at heq
    · next hhanded => exact .inl ⟨hhanded, heq⟩
    · next hhanded =>
      have hnot := Bool.eq_false_iff.mpr hhanded
      split at heq
      · next hbridge => exact .inr (.inl ⟨hnot, Option.isNone_iff_eq_none.mp hbridge.2, heq⟩)
      · exact .inr (.inr ⟨hnot, heq⟩)

/-- What holds of every task handed over one by one holds of all. -/
theorem forall_tasksOf_each {α : Type} {P : Task → Prop}
    {f : Collector → α → Collector × List Item} (hf : ∀ c a, ∀ t ∈ tasksOf (f c a).2, P t)
    (c : Collector) (l : List α) : ∀ t ∈ tasksOf (c.each f l).2, P t := by
  induction l generalizing c with
  | nil => exact fun t ht => absurd ht List.not_mem_nil
  | cons a rest ih =>
    intro t ht
    simp only [each, tasksOf_append, List.mem_append] at ht
    rcases ht with hfirst | hlater
    · exact hf c a t hfirst
    · exact ih (f c a).1 t hlater

/-- Doing two lists of things one after the other. By induction on the first. -/
theorem each_append {α : Type} (f : Collector → α → Collector × List Item) (c : Collector)
    (first second : List α) :
    c.each f (first ++ second) =
      (((c.each f first).1.each f second).1,
        (c.each f first).2 ++ ((c.each f first).1.each f second).2) := by
  induction first generalizing c with
  | nil => rfl
  | cons a rest ih => simp only [List.cons_append, each, ih (f c a).1, List.append_assoc]

/-- Handing over tasks one by one as cut short hands over all of them, and leaves those alone that
are still kept. -/
theorem each_handOver_cutShort (c : Collector) (l : List Task) :
    tasksOf (c.each (fun c t => c.handOver (cutShort t)) l).2 =
        l.map (fun t => flagMisplaced (cutShort t)) ∧
      (c.each (fun c t => c.handOver (cutShort t)) l).1.active = c.active ∧
      (c.each (fun c t => c.handOver (cutShort t)) l).1.waiting = c.waiting := by
  induction l generalizing c with
  | nil => exact ⟨rfl, rfl, rfl⟩
  | cons t rest ih =>
    obtain ⟨htasks, hkept⟩ := ih (c.handOver (cutShort t)).1
    refine ⟨?_, hkept⟩
    simp only [each, tasksOf_append, tasksOf_handOver, htasks, List.map_cons, List.cons_append,
      List.nil_append]

/-- A listing hands over no task. -/
theorem tasksOf_placeListing (c : Collector) (l : Listing) :
    tasksOf (c.placeListing l).2 = [] := by
  unfold placeListing
  split
  · rfl
  · split <;> rfl

/-- Reading the printed machine code hands over no task. -/
theorem tasksOf_flush (c : Collector) : tasksOf c.flush.2 = [] := by
  refine List.eq_nil_iff_forall_not_mem.mpr ?_
  refine forall_tasksOf_each (P := fun _ => False) (fun c l t ht => ?_) _ _
  rw [tasksOf_placeListing] at ht
  exact absurd ht List.not_mem_nil

/-- Reading the printed machine code before an event hands over no task. -/
theorem tasksOf_flushBefore (c : Collector) (e : Event) : tasksOf (c.flushBefore e).2 = [] := by
  unfold flushBefore
  split
  · rfl
  · exact c.tasksOf_flush

/-- Releasing a trap hands over no task. -/
theorem tasksOf_releaseTrap (c : Collector) : tasksOf c.releaseTrap.2 = [] := by
  unfold releaseTrap
  split <;> rfl

/-! ### What an event does -/

/-- Two collectors hold the same tasks, and have handed over as many. -/
structure SameTasks (c c' : Collector) : Prop where
  /-- The same task is under way. -/
  active_eq : c'.active = c.active
  /-- The same tasks wait. -/
  waiting_eq : c'.waiting = c.waiting
  /-- Tasks were handed over under the same numbers. -/
  handedOver_eq : c'.handedOver = c.handedOver
  /-- As many were finished. -/
  closed_eq : c'.counts.closed = c.counts.closed
  /-- As many were abandoned. -/
  abandoned_eq : c'.counts.abandoned = c.counts.abandoned
  /-- As many began under a number of which one was handed over. -/
  duplicateStarts_eq : c'.counts.duplicateStarts = c.counts.duplicateStarts

/-- Whether an event may open a task. -/
def opensTask : Event → Bool
  | .taskQueued _ | .taskStart _ | .nmethod _ => true
  | _ => false

/-- What an event does to the tasks of a collector. -/
inductive Does (c : Collector) (shape : Shape) (flags : List TaskFlag) :
    Event → Collector × List Item → Prop where
  /-- It queues a task. -/
  | queues (facts : TaskFacts) :
      Does c shape flags (.taskQueued facts) (c.queueTask facts flags, [])
  /-- It starts a task. -/
  | starts (facts : TaskFacts) : Does c shape flags (.taskStart facts) (c.startTask facts flags)
  /-- It finishes the task under way. -/
  | finishes (success : Option Bool) (nativeSize inlinedBytes : Option UInt64)
      (stamp : Option Stamp) :
      Does c shape flags (.taskDone success nativeSize inlinedBytes stamp)
        (c.finishTask success nativeSize inlinedBytes stamp flags)
  /-- It installs code. -/
  | installs (facts : NativeFacts) : Does c shape flags (.nmethod facts) (c.installCode facts flags)
  /-- It cuts the task under way short. -/
  | cutsShort {e : Event} (he : opensTask e = false) (thread : Option String) :
      Does c shape flags e ({ c.abandonActive.1 with thread }, c.abandonActive.2)
  /-- It closes the printed listings. -/
  | flushes {e : Event} (he : opensTask e = false) : Does c shape flags e c.flush
  /-- It says something about the task under way. -/
  | tells {e : Event} (he : opensTask e = false) :
      Does c shape flags e (c.takeInTask shape e flags, [])
  /-- It tells a frame. -/
  | frames (bci : Option UInt32) (method : Option Method) (methodId : Option UInt64) :
      Does c shape flags (.jvms bci method methodId) (c.takeFrame bci method methodId, [])
  /-- It says nothing of tasks. -/
  | passes {e : Event} {r : Collector × List Item} (he : opensTask e = false)
      (hsame : SameTasks c r.1) (hitems : tasksOf r.2 = []) : Does c shape flags e r

/-- Every event does one of these. -/
theorem does_take (c : Collector) (shape : Shape) (flags : List TaskFlag) (e : Event) :
    Does c shape flags e (c.take shape flags e) := by
  have hsame : SameTasks c c := ⟨rfl, rfl, rfl, rfl, rfl, rfl⟩
  cases e with
  | taskQueued facts => exact .queues facts
  | taskStart facts => exact .starts facts
  | taskDone success nativeSize inlinedBytes stamp => exact .finishes _ _ _ _
  | nmethod facts => exact .installs facts
  | jvms bci method methodId => exact .frames bci method methodId
  | close of =>
    cases of with
    | threadLog => exact .cutsShort rfl none
    | taskStart => exact .cutsShort rfl c.abandonActive.1.thread
    | printNmethod => exact .flushes rfl
    | uncommonTrap =>
      unfold take
      simp only
      split
      · exact .passes rfl ⟨rfl, rfl, rfl, rfl, rfl, rfl⟩ rfl
      · exact .passes rfl hsame rfl
    | _ => exact .tells rfl
  | uncommonTrap id bci reason action stamp =>
    cases id with
    | none => exact .tells rfl
    | some id =>
      show Does c shape flags _ (c.hitTrap shape _)
      unfold hitTrap
      split
      · exact .passes rfl ⟨rfl, rfl, rfl, rfl, rfl, rfl⟩ rfl
      · exact .passes rfl hsame rfl
  | deoptimized id reason pc stamp =>
    cases id with
    | none => exact .tells rfl
    | some id => exact .passes rfl hsame rfl
  | madeNotEntrant id compiler level stamp =>
    cases id with
    | none => exact .tells rfl
    | some id => exact .passes rfl hsame rfl
  | unknown tag attributes closing =>
    cases closing
    · exact .passes rfl ⟨rfl, rfl, rfl, rfl, rfl, rfl⟩ rfl
    · exact .passes rfl hsame rfl
  | logStart => exact .passes rfl ⟨rfl, rfl, rfl, rfl, rfl, rfl⟩ rfl
  | headerText => exact .passes rfl ⟨rfl, rfl, rfl, rfl, rfl, rfl⟩ rfl
  | compilerThread => exact .passes rfl ⟨rfl, rfl, rfl, rfl, rfl, rfl⟩ rfl
  | threadLog => exact .passes rfl ⟨rfl, rfl, rfl, rfl, rfl, rfl⟩ rfl
  | assemblyText => exact .passes rfl ⟨rfl, rfl, rfl, rfl, rfl, rfl⟩ rfl
  | _ => exact .tells rfl

end Collector

end Collect

end CompileLog

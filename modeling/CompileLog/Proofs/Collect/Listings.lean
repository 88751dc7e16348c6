import CompileLog.Proofs.Collect.Handover
import CompileLog.Proofs.KeyMap

/-!
# Reading without keeping listings

A printed listing gives the bytes of the code and its anchors. Whether the listing itself is kept
besides is the only thing that a collector is told beforehand, and nothing that it does later looks
at a listing that was kept. So every operation may as well be done without the listings: what a log
yields where none are kept is what it yields where they are, with the listings dropped.
-/

namespace CompileLog

open Collect

/-- The code with its listing dropped. -/
def NativeCode.withoutListing (n : NativeCode) : NativeCode := { n with listing := none }

/-- The task with the listing of its code dropped. -/
def Task.withoutListing (t : Task) : Task :=
  { t with native := t.native.map NativeCode.withoutListing }

/-! ### Tasks -/

namespace Task

variable (t : Task)

/-- Dropping the listing twice is dropping it once. -/
@[simp] theorem withoutListing_withoutListing :
    t.withoutListing.withoutListing = t.withoutListing := by
  unfold withoutListing
  cases t.native <;> rfl

/-- Noting a flag. -/
theorem flag_withoutListing (f : TaskFlag) :
    t.withoutListing.flag f = (t.flag f).withoutListing := by
  unfold flag
  rw [apply_ite withoutListing]
  rfl

/-- Noting flags. By induction on them. -/
theorem withFlags_withoutListing (flags : List TaskFlag) :
    Collector.withFlags flags t.withoutListing =
      (Collector.withFlags flags t).withoutListing := by
  induction flags generalizing t with
  | nil => rfl
  | cons f rest ih =>
    simp only [Collector.withFlags, List.foldl_cons, flag_withoutListing] at ih ⊢
    exact ih (t.flag f)

/-- Noting that the method is not known. -/
theorem flagUnresolved_withoutListing :
    Collector.flagUnresolved t.withoutListing = (Collector.flagUnresolved t).withoutListing := by
  unfold Collector.flagUnresolved
  rw [flag_withoutListing, apply_ite withoutListing]
  rfl

/-- Noting the call sites that lie outside their callers. -/
theorem flagMisplaced_withoutListing :
    Collector.flagMisplaced t.withoutListing = (Collector.flagMisplaced t).withoutListing := by
  rw [Collector.flagMisplaced_eq_withFlags, Collector.flagMisplaced_eq_withFlags,
    ← withFlags_withoutListing]
  rfl

/-- Cutting a task short. -/
theorem cutShort_withoutListing :
    Collector.cutShort t.withoutListing = (Collector.cutShort t).withoutListing :=
  flag_withoutListing { t with state := TaskState.abandoned } .incomplete

/-- Installed code, without a listing itself. -/
theorem attachNative_withoutListing (n : NativeCode) :
    t.withoutListing.attachNative n.withoutListing = (t.attachNative n).withoutListing := by
  unfold attachNative withoutListing
  cases t.native <;> rfl

/-- A listing that is added takes the place of the one before. -/
theorem withoutListing_attachListing (l : Listing) :
    (t.withoutListing.attachListing l).withoutListing = (t.attachListing l).withoutListing := by
  -- A listing of too wide a span is only flagged, so the one before may stay on either side.
  have hsame : (t.withoutListing.native.getD .unknown).attachListing l =
      (t.native.getD .unknown).attachListing l := by
    unfold withoutListing
    cases t.native <;> rfl
  unfold attachListing
  rw [hsame]
  cases (t.native.getD .unknown).attachListing l with
  | ok native => rfl
  | error e =>
    simp only [flag_withoutListing, withoutListing_withoutListing]

/-- A listing leaves its bytes and its anchors, whether or not it is kept itself. -/
theorem addListing_withoutListing (retain : Bool) (l : Listing) :
    Collector.addListing false l t.withoutListing =
      (Collector.addListing retain l t).withoutListing := by
  have hdropped : Collector.addListing false l t.withoutListing =
      (t.attachListing l).withoutListing := t.withoutListing_attachListing l
  rw [hdropped]
  unfold Collector.addListing
  cases retain
  · exact (withoutListing_withoutListing _).symm
  · rfl

/-- Queueing a task. -/
theorem noteQueued_withoutListing (facts : TaskFacts) (flags : List TaskFlag) :
    Collector.noteQueued facts flags t.withoutListing =
      (Collector.noteQueued facts flags t).withoutListing :=
  withFlags_withoutListing
    { Collector.applyFacts facts t with
      queuedAt := (Collector.applyFacts facts t).queuedAt.or facts.stamp } flags

/-- Beginning a task. -/
theorem beginTask_withoutListing (facts : TaskFacts) (thread : Option String)
    (flags : List TaskFlag) :
    Collector.beginTask facts thread flags t.withoutListing =
      (Collector.beginTask facts thread flags t).withoutListing := by
  let started (t : Task) : Task :=
    let t := Collector.applyFacts facts { t with method := facts.method.getD t.method }
    { t with startedAt := facts.stamp.or t.startedAt, thread }
  let rooted (t : Task) : Task := { t with tree := t.tree.withRoot t.method t.bytecodeSize }
  have hbegun : ∀ t, Collector.beginTask facts thread flags t =
      Collector.withFlags flags (rooted (Collector.flagUnresolved (started t))) := fun _ => rfl
  have hstarted : started t.withoutListing = (started t).withoutListing := rfl
  rw [hbegun, hbegun, hstarted, flagUnresolved_withoutListing]
  exact withFlags_withoutListing (rooted (Collector.flagUnresolved (started t))) flags

/-- Installing code. -/
theorem install_withoutListing (facts : NativeFacts) (flags : List TaskFlag) :
    Collector.install facts flags t.withoutListing =
      (Collector.install facts flags t).withoutListing := by
  unfold Collector.install
  simp only
  rw [← withFlags_withoutListing]
  have hnative : Collector.nativeOf facts = (Collector.nativeOf facts).withoutListing := rfl
  rw [hnative, ← attachNative_withoutListing]
  congr 2
  have hmethod : t.withoutListing.method = t.method := rfl
  rw [hmethod]
  cases t.method.isUnresolved <;> cases facts.method <;> rfl

end Task

/-! ### The task under way -/

namespace Collect.Compiling

/-- The task under way with its listing dropped. -/
def withoutListing (c : Compiling) : Compiling := c.onTask Task.withoutListing

variable (c : Compiling)

/-- Noting that something was said. -/
theorem touch_withoutListing : c.withoutListing.touch = c.touch.withoutListing := by
  unfold touch withoutListing onTask
  rw [apply_ite Task.withoutListing]
  rfl

/-- A decision on a call. -/
theorem decide_withoutListing (decision : Decision) (reason : Option String) :
    c.withoutListing.decide decision reason = (c.decide decision reason).withoutListing := by
  unfold decide
  rw [touch_withoutListing]
  rfl

/-- The begin of a method body. -/
theorem openBody_withoutListing (method : Option UInt64) :
    c.withoutListing.openBody method = (c.openBody method).withoutListing := by
  unfold openBody
  rw [touch_withoutListing]
  generalize c.touch = c
  simp only [withoutListing, onTask]
  cases c.bodies with
  | nil => cases c.names.known? method <;> rfl
  | cons body outer =>
    simp only
    cases takeDecision? method body.decisions <;> rfl

/-- The end of a method body. -/
theorem closeBody_withoutListing : c.withoutListing.closeBody = c.closeBody.withoutListing := by
  simp only [closeBody, withoutListing, onTask]
  cases c.bodies with
  | nil => simp only [Task.flag_withoutListing]
  | cons body outer => rfl

/-- The end of a removed operation. -/
theorem closeRecord_withoutListing :
    c.withoutListing.closeRecord = c.closeRecord.withoutListing := by
  obtain ⟨task, names, bodies, call, record, openPhases, free⟩ := c
  cases record with
  | none => rfl
  | some record => cases record <;> rfl

/-- The begin of a removed operation. -/
theorem openRecord_withoutListing (record : OpenRecord) (shape : Shape) :
    c.withoutListing.openRecord record shape = (c.openRecord record shape).withoutListing := by
  unfold openRecord
  rw [touch_withoutListing, closeRecord_withoutListing]
  simp only
  split
  · rfl
  · exact closeRecord_withoutListing { c.touch.closeRecord with record := some record }

/-- The begin of a phase. -/
theorem openPhase_withoutListing (facts : PhaseFacts) :
    c.withoutListing.openPhase facts = (c.openPhase facts).withoutListing := by
  unfold openPhase
  rw [touch_withoutListing]
  rfl

/-- The end of a phase. -/
theorem closePhase_withoutListing (facts : PhaseFacts) :
    c.withoutListing.closePhase facts = (c.closePhase facts).withoutListing := by
  obtain ⟨task, names, bodies, call, record, openPhases, free⟩ := c
  cases openPhases <;> rfl

/-- Something else that is said about the task, whatever its listing. -/
theorem onTask_touch_withoutListing {f : Task → Task}
    (hf : ∀ t : Task, f t.withoutListing = (f t).withoutListing) :
    c.withoutListing.touch.onTask f = (c.touch.onTask f).withoutListing := by
  rw [touch_withoutListing]
  unfold withoutListing onTask
  simp only [hf]

/-- Whatever an event says about the task under way, it says the same without its listing. -/
theorem take_withoutListing (shape : Shape) (e : Event) :
    c.withoutListing.take shape e = (c.take shape e).withoutListing := by
  cases e with
  | typeDef id name => cases id <;> cases name <;> rfl
  | klassDef id name => cases id <;> cases name <;> rfl
  | methodDef id holder name returnType arguments bytes count => cases id <;> rfl
  | parseOpen method stamp => exact c.openBody_withoutListing method
  | inlineSuccess reason => exact c.decide_withoutListing _ _
  | inlineFail reason => exact c.decide_withoutListing _ _
  | intrinsic name => exact c.decide_withoutListing _ _
  | uncommonTrap id bci reason action stamp =>
    cases id with
    | none =>
      let trap : PlantedTrap := ⟨c.method, bci.or c.bci, reason, action⟩
      exact c.onTask_touch_withoutListing
        (f := fun t => { t with plantedTraps := t.plantedTraps ++ [trap] }) fun _ => rfl
    | some id => rfl
  | eliminateAllocation klass => exact c.openRecord_withoutListing _ _
  | eliminateLock lock kind => exact c.openRecord_withoutListing _ _
  | hotThrow preallocated reason =>
    let hotThrow : HotThrow := ⟨c.method, c.bci, reason, preallocated.getD false⟩
    exact c.onTask_touch_withoutListing
      (f := fun t => { t with hotThrows := t.hotThrows ++ [hotThrow] }) fun _ => rfl
  | phase facts => exact c.openPhase_withoutListing facts
  | phaseDone facts => exact c.closePhase_withoutListing facts
  | failure reason stamp =>
    exact c.onTask_touch_withoutListing (f := fun t => { t with outcome := .failed reason })
      fun _ => rfl
  | close of =>
    cases of with
    | parseOpen => exact c.closeBody_withoutListing
    | eliminateAllocation => exact c.closeRecord_withoutListing
    | eliminateLock => exact c.closeRecord_withoutListing
    | _ => rfl
  | _ => rfl

/-- The task once it is finished. -/
theorem finished_withoutListing (success : Option Bool) (nativeSize inlinedBytes : Option UInt64)
    (stamp : Option Stamp) (flags : List TaskFlag) :
    c.withoutListing.finished success nativeSize inlinedBytes stamp flags =
      (c.finished success nativeSize inlinedBytes stamp flags).withoutListing := by
  unfold finished
  simp only [withoutListing, onTask, Task.withFlags_withoutListing]
  rw [apply_ite Task.withoutListing, ← Task.flag_withoutListing]
  rfl

end Collect.Compiling

/-! ### Collectors -/

/-- What is handed over, with the listings of the code dropped. A listing handed over by itself
stays. -/
def Collect.Item.withoutListing : Item → Item
  | .task t => .task t.withoutListing
  | .lateNative id n => .lateNative id n.withoutListing
  | item => item

namespace Collect.Collector

/-- The collector that keeps no listings: where this one does, it has none. -/
def withoutListings (c : Collector) : Collector :=
  { c with
    retainListings := false
    active := c.active.map Compiling.withoutListing
    waiting := c.waiting.map fun _ t => t.withoutListing }

/-- A collector with what it hands over, both without listings. -/
def unlisted (r : Collector × List Item) : Collector × List Item :=
  (r.1.withoutListings, r.2.map Item.withoutListing)

variable (c : Collector)

/-- The task under way, if it has this number. -/
theorem activeWith?_withoutListings (id : UInt64) :
    c.withoutListings.activeWith? id = (c.activeWith? id).map Compiling.withoutListing := by
  unfold activeWith? withoutListings
  simp only
  cases c.active with
  | none => rfl
  | some a =>
    rw [Option.map_some, Option.filter_some, Option.filter_some,
      apply_ite (Option.map Compiling.withoutListing)]
    rfl

/-- The task that waits under a number. -/
theorem waiting_get?_withoutListings (id : UInt64) :
    c.withoutListings.waiting.get? id = (c.waiting.get? id).map Task.withoutListing :=
  KeyMap.get?_map _ c.waiting id

/-- The task with a number that is not handed over. -/
theorem openTask?_withoutListings (id : UInt64) :
    c.withoutListings.openTask? id = (c.openTask? id).map Task.withoutListing := by
  unfold openTask?
  rw [activeWith?_withoutListings, waiting_get?_withoutListings]
  cases c.activeWith? id <;> rfl

/-- A changed task that is put back. -/
theorem putTask_withoutListings (id : UInt64) (t : Task) :
    c.withoutListings.putTask id t.withoutListing = (c.putTask id t).withoutListings := by
  unfold putTask
  rw [activeWith?_withoutListings]
  cases c.activeWith? id with
  | some a => rfl
  | none =>
    simp only [Option.map_none, withoutListings, KeyMap.map_insert]

/-- More that is told of a task, whatever its listing. -/
theorem onTask_withoutListings (id : UInt64) (method : Option Method) {f : Task → Task}
    (hf : ∀ t : Task, f t.withoutListing = (f t).withoutListing) :
    c.withoutListings.onTask id method f = (c.onTask id method f).withoutListings := by
  unfold onTask
  rw [openTask?_withoutListings]
  cases c.openTask? id with
  | some t =>
    simp only [Option.map_some, hf]
    exact c.putTask_withoutListings id (f t)
  | none =>
    have hmet : f (implicitTask id method) = (f (implicitTask id method)).withoutListing :=
      hf (implicitTask id method)
    have hput := putTask_withoutListings (c.count fun n => { n with implicit := n.implicit + 1 }) id
      (f (implicitTask id method))
    rw [← hmet] at hput
    exact hput

/-- A task that is handed over. -/
theorem handOver_withoutListings (t : Task) :
    c.withoutListings.handOver t.withoutListing = unlisted (c.handOver t) := by
  unfold handOver
  rw [Task.flagMisplaced_withoutListing]
  rfl

/-- One thing after another. By induction on the things, which may have listings themselves. -/
theorem each_withoutListings {α : Type} {f : Collector → α → Collector × List Item} {g : α → α}
    (hf : ∀ c a, f c.withoutListings (g a) = unlisted (f c a)) (l : List α) :
    c.withoutListings.each f (l.map g) = unlisted (c.each f l) := by
  induction l generalizing c with
  | nil => rfl
  | cons a rest ih =>
    simp only [List.map_cons, each, hf]
    have hrest := ih (f c a).1
    simp only [unlisted] at hrest ⊢
    rw [hrest, List.map_append]

/-- A task that is cut short. -/
theorem abandonActive_withoutListings :
    c.withoutListings.abandonActive = unlisted c.abandonActive := by
  unfold abandonActive
  cases hactive : c.active with
  | none => simp [withoutListings, hactive, unlisted]
  | some a =>
    have hhanded := handOver_withoutListings { c with active := none } (cutShort a.task)
    rw [← Task.cutShort_withoutListing] at hhanded
    simp only [withoutListings, hactive, Option.map_some]
    exact hhanded

/-- A task that is queued. -/
theorem queueTask_withoutListings (facts : TaskFacts) (flags : List TaskFlag) :
    c.withoutListings.queueTask facts flags = (c.queueTask facts flags).withoutListings := by
  unfold queueTask
  cases facts.compileId with
  | none => rfl
  | some id =>
    simp only
    rw [apply_ite withoutListings]
    congr 1
    exact c.onTask_withoutListings id facts.method fun t =>
      t.noteQueued_withoutListing facts flags

/-- The task that begins under a number. -/
theorem takeWaiting_withoutListings (id : UInt64) :
    c.withoutListings.takeWaiting id =
      ((c.takeWaiting id).1.withoutListings, (c.takeWaiting id).2.withoutListing) := by
  unfold takeWaiting
  rw [waiting_get?_withoutListings]
  cases c.waiting.get? id with
  | some t => simp only [Option.map_some, withoutListings, KeyMap.map_erase]; rfl
  | none =>
    simp only [Option.map_none]
    have hhanded : c.withoutListings.isHandedOver id = c.isHandedOver id := rfl
    rw [hhanded]
    cases c.isHandedOver id <;> rfl

/-- A task that begins. -/
theorem startTask_withoutListings (facts : TaskFacts) (flags : List TaskFlag) :
    c.withoutListings.startTask facts flags = unlisted (c.startTask facts flags) := by
  unfold startTask
  rw [abandonActive_withoutListings]
  simp only [unlisted]
  have hcounted : (if facts.compileId.isNone = true then
      c.abandonActive.1.withoutListings.countStray else c.abandonActive.1.withoutListings) =
      (if facts.compileId.isNone = true then c.abandonActive.1.countStray
        else c.abandonActive.1).withoutListings := by
    cases facts.compileId <;> rfl
  rw [hcounted, takeWaiting_withoutListings, Task.beginTask_withoutListing]
  rfl

/-- The task under way once it is finished. -/
theorem finishTask_withoutListings (success : Option Bool) (nativeSize inlinedBytes : Option UInt64)
    (stamp : Option Stamp) (flags : List TaskFlag) :
    c.withoutListings.finishTask success nativeSize inlinedBytes stamp flags =
      unlisted (c.finishTask success nativeSize inlinedBytes stamp flags) := by
  cases hactive : c.active with
  | none =>
    have hnone : c.withoutListings.active = none := by simp [withoutListings, hactive]
    unfold finishTask
    rw [hactive, hnone]
    rfl
  | some a =>
    have hsome : c.withoutListings.active = some a.withoutListing := by
      simp [withoutListings, hactive]
    have hhanded := handOver_withoutListings { c with active := none }
      (a.finished success nativeSize inlinedBytes stamp flags)
    rw [← Compiling.finished_withoutListing] at hhanded
    rw [finishTask_eq_of_active hactive, finishTask_eq_of_active hsome]
    have hactive' : ({ c.withoutListings with active := none } : Collector) =
        withoutListings { c with active := none } := rfl
    rw [hactive', hhanded]
    simp only [unlisted, List.map_append]
    congr 2
    rw [apply_ite (List.map Item.withoutListing), Compiling.finished_withoutListing]
    rfl

/-- The listing of a bridge is not known. -/
theorem wrapperTask_withoutListing (id : UInt64) (facts : NativeFacts) (flags : List TaskFlag) :
    (wrapperTask id facts flags).withoutListing = wrapperTask id facts flags := by
  unfold wrapperTask
  rw [← Task.withFlags_withoutListing, ← Task.flagUnresolved_withoutListing]
  rfl

/-- Code that is installed. -/
theorem installCode_withoutListings (facts : NativeFacts) (flags : List TaskFlag) :
    c.withoutListings.installCode facts flags = unlisted (c.installCode facts flags) := by
  cases hid : facts.compileId with
  | none =>
    unfold installCode
    rw [hid]
    rfl
  | some id =>
    -- The address is noted before, which is no matter of listings.
    have hnoted : ∀ c : Collector,
        (if c.withoutListings.isHandedOver id then
          (c.withoutListings, [.lateNative id (nativeOf facts)])
        else if CompileKind.ofLog facts.compileKind none = .nativeWrapper ∧
            (c.withoutListings.openTask? id).isNone then
          c.withoutListings.handOver (wrapperTask id facts flags)
        else (c.withoutListings.onTask id facts.method (install facts flags), [])) =
        unlisted (if c.isHandedOver id then (c, [.lateNative id (nativeOf facts)])
        else if CompileKind.ofLog facts.compileKind none = .nativeWrapper ∧
            (c.openTask? id).isNone then
          c.handOver (wrapperTask id facts flags)
        else (c.onTask id facts.method (install facts flags), [])) := by
      intro c
      have hhanded := c.handOver_withoutListings (wrapperTask id facts flags)
      rw [wrapperTask_withoutListing] at hhanded
      have htold := c.onTask_withoutListings id facts.method fun t =>
        t.install_withoutListing facts flags
      rw [openTask?_withoutListings, Option.isNone_map, hhanded, htold, apply_ite unlisted,
        apply_ite unlisted]
      rfl
    unfold installCode
    rw [hid]
    cases facts.address with
    | none => exact hnoted c
    | some address => exact hnoted { c with addresses := c.addresses.insert address id }

/-- A listing that is placed. -/
theorem placeListing_withoutListings (l : Listing) :
    c.withoutListings.placeListing l = unlisted (c.placeListing l) := by
  unfold placeListing
  have haddresses : c.withoutListings.addresses = c.addresses := rfl
  rw [haddresses]
  cases l.compileId.or (l.codeAddress.bind c.addresses.get?) with
  | none => rfl
  | some id =>
    simp only [openTask?_withoutListings]
    cases c.openTask? id with
    | none => rfl
    | some t =>
      have hadded := t.addListing_withoutListing c.retainListings l
      have hretain : c.withoutListings.retainListings = false := rfl
      simp only [Option.map_some, hretain, hadded, putTask_withoutListings]
      rfl

/-- The printed machine code, once it is read. -/
theorem flush_withoutListings : c.withoutListings.flush = unlisted c.flush := by
  have hplaced := each_withoutListings { c with printed := "" } (g := id)
    (fun c l => c.placeListing_withoutListings l) (listingsOf c.printed)
  rw [List.map_id] at hplaced
  exact hplaced

/-- What is said about the task under way. -/
theorem takeInTask_withoutListings (shape : Shape) (e : Event) (flags : List TaskFlag) :
    c.withoutListings.takeInTask shape e flags =
      (c.takeInTask shape e flags).withoutListings := by
  unfold takeInTask
  cases hactive : c.active with
  | none =>
    simp only [withoutListings, hactive, Option.map_none]
    split <;> simp [countStray, count, hactive]
  | some a =>
    have htaken := Compiling.take_withoutListing { a with task := withFlags flags a.task } shape e
    simp only [withoutListings, hactive, Option.map_some, ← htaken]
    simp only [Compiling.withoutListing, Compiling.onTask, Task.withFlags_withoutListing]

/-- A frame that is told. -/
theorem takeFrame_withoutListings (bci : Option UInt32) (method : Option Method)
    (methodId : Option UInt64) :
    c.withoutListings.takeFrame bci method methodId =
      (c.takeFrame bci method methodId).withoutListings := by
  unfold takeFrame
  have htrap : c.withoutListings.trap = c.trap := rfl
  rw [htrap]
  cases c.trap with
  | none => simp only [withoutListings, Option.map_map]; rfl
  | some d =>
    simp only
    rw [apply_ite withoutListings]
    rfl

/-- The trap whose frames are being told, once it is released. -/
theorem releaseTrap_withoutListings : c.withoutListings.releaseTrap = unlisted c.releaseTrap := by
  have htrap : c.withoutListings.trap = c.trap := rfl
  unfold releaseTrap
  rw [htrap]
  cases c.trap <;> rfl

/-- Whatever an event says, it says the same without listings. -/
theorem take_withoutListings (shape : Shape) (flags : List TaskFlag) (e : Event) :
    c.withoutListings.take shape flags e = unlisted (c.take shape flags e) := by
  have htell : ∀ e', (c.withoutListings.takeInTask shape e' flags, []) =
      unlisted (c.takeInTask shape e' flags, []) := fun e' => by
    rw [takeInTask_withoutListings]
    rfl
  cases e with
  | taskQueued facts =>
    have hqueued : (c.withoutListings.queueTask facts flags, []) =
        unlisted (c.queueTask facts flags, []) := by
      rw [queueTask_withoutListings]
      rfl
    exact hqueued
  | taskStart facts => exact c.startTask_withoutListings facts flags
  | taskDone success nativeSize inlinedBytes stamp => exact c.finishTask_withoutListings _ _ _ _ _
  | nmethod facts => exact c.installCode_withoutListings facts flags
  | jvms bci method methodId =>
    have hframe : (c.withoutListings.takeFrame bci method methodId, []) =
        unlisted (c.takeFrame bci method methodId, []) := by
      rw [takeFrame_withoutListings]
      rfl
    exact hframe
  | close of =>
    cases of with
    | threadLog =>
      have hcut : ({ c.withoutListings.abandonActive.1 with thread := none },
          c.withoutListings.abandonActive.2) =
          unlisted ({ c.abandonActive.1 with thread := none }, c.abandonActive.2) := by
        rw [abandonActive_withoutListings]
        rfl
      exact hcut
    | taskStart => exact c.abandonActive_withoutListings
    | printNmethod => exact c.flush_withoutListings
    | uncommonTrap => exact c.releaseTrap_withoutListings
    | _ => exact htell _
  | uncommonTrap id bci reason action stamp =>
    cases id with
    | none => exact htell _
    | some id =>
      have hhit : ∀ d, c.withoutListings.hitTrap shape d = unlisted (c.hitTrap shape d) := by
        intro d
        unfold hitTrap
        rw [apply_ite unlisted]
        rfl
      exact hhit _
  | deoptimized id reason pc stamp =>
    cases id with
    | none => exact htell _
    | some id => rfl
  | madeNotEntrant id compiler level stamp =>
    cases id with
    | none => exact htell _
    | some id => rfl
  | unknown tag attributes closing => cases closing <;> rfl
  | logStart => rfl
  | headerText => rfl
  | compilerThread => rfl
  | threadLog => rfl
  | assemblyText => rfl
  | _ => exact htell _

/-- The next event of a log. -/
theorem accept_withoutListings (e : LogEvent) :
    c.withoutListings.accept e = unlisted (c.accept e) := by
  have hflushed : c.withoutListings.flushBefore e.event = unlisted (c.flushBefore e.event) := by
    unfold flushBefore
    rw [flush_withoutListings, apply_ite unlisted]
    rfl
  unfold accept
  simp only [hflushed, unlisted]
  have htaken := take_withoutListings ((c.flushBefore e.event).1.count fun n =>
    { n with unreadAttributes := n.unreadAttributes + e.unread.length }) e.shape (unreadFlags e)
    e.event
  have hcounted : ((c.flushBefore e.event).1.withoutListings.count fun n =>
      { n with unreadAttributes := n.unreadAttributes + e.unread.length }) =
      ((c.flushBefore e.event).1.count fun n =>
        { n with unreadAttributes := n.unreadAttributes + e.unread.length }).withoutListings := rfl
  rw [hcounted, htaken]
  simp only [unlisted, List.map_append]

/-- The events of a log. -/
theorem acceptAll_withoutListings (events : List LogEvent) :
    c.withoutListings.acceptAll events = unlisted (c.acceptAll events) := by
  have hall := c.each_withoutListings (g := id) (fun c e => c.accept_withoutListings e) events
  rw [List.map_id] at hall
  exact hall

/-- Where a log ends, what is still open. -/
theorem finish_withoutListings : c.withoutListings.finish = unlisted c.finish := by
  have hwaiting : ∀ c : Collector,
      c.withoutListings.abandonWaiting = unlisted c.abandonWaiting := by
    intro c
    have hvalues : c.withoutListings.waiting.entries.map Prod.snd =
        (c.waiting.entries.map Prod.snd).map Task.withoutListing :=
      KeyMap.values_map c.waiting Task.withoutListing
    unfold abandonWaiting
    rw [hvalues]
    refine each_withoutListings { c with waiting := ∅ } (fun c t => ?_) _
    rw [Task.cutShort_withoutListing]
    exact c.handOver_withoutListings (cutShort t)
  unfold finish
  simp only [flush_withoutListings, unlisted, releaseTrap_withoutListings,
    abandonActive_withoutListings, hwaiting, List.map_append]

/-- What a log yields where no listings are kept is what it yields where they are, with the
listings of the code dropped. -/
theorem collect_withoutListings (retain : Bool) (events : List LogEvent) :
    collect false events = unlisted (collect retain events) := by
  have hstart : start false = (start retain).withoutListings := rfl
  unfold collect
  simp only [hstart, acceptAll_withoutListings, unlisted, finish_withoutListings, List.map_append]

end Collect.Collector

end CompileLog

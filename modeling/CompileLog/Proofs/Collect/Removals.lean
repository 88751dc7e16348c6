import CompileLog.Proofs.Collect.Transcript

/-!
# Operations that the compiler removed

The log tells of each allocation and each monitor operation that the compiler removed, and then of
the frames around it. The frames belong to the removal up to the next one, or up to where an element
of a removal closes. Each removal stays on the task that was under way, in the order they were told,
each with its frames; the last of them may still be open where the task ends.
-/

namespace CompileLog.Collect

/-! ### What a log tells of removals -/

/-- The record of what was removed, before its frames are told. -/
def removal? (names : Dictionary) : Event → Option OpenRecord
  | .eliminateAllocation klass => some (.allocation ⟨klass.bind names.klasses.get?, []⟩)
  | .eliminateLock lock kind =>
    some (.lock ⟨lock.map fun locks => if locks then LockOp.lock else LockOp.unlock, kind, []⟩)
  | _ => none

/-- Whether the frames told from here on are not those of a removal told before. -/
def endsRemoval : Event → Bool
  | .eliminateAllocation _ | .eliminateLock .. => true
  | .close .eliminateAllocation | .close .eliminateLock => true
  | _ => false

/-- The frame that an event tells. -/
def frame? (names : Dictionary) : Event → Option Frame
  | .jvms bci method methodId => some ⟨method.getD (names.methodOf methodId), bci⟩
  | _ => none

/-- The frames that are told next of a removal. -/
def framesFrom (names : Dictionary) : List LogEvent → List Frame
  | [] => []
  | e :: rest =>
    if endsRemoval e.event then []
    else (frame? names e.event).toList ++ framesFrom (names.explain e.event) rest

/-- The record with more frames. -/
def OpenRecord.addFrames (frames : List Frame) : OpenRecord → OpenRecord
  | .allocation r => .allocation { r with frames := r.frames ++ frames }
  | .lock r => .lock { r with frames := r.frames ++ frames }

/-- The removals that are told next, each with its frames. One whose element has no content has
none. -/
def removalsFrom (names : Dictionary) : List LogEvent → List OpenRecord
  | [] => []
  | e :: rest =>
    ((removal? names e.event).map (OpenRecord.addFrames
      (if e.shape = .opening then framesFrom names rest else []))).toList ++
        removalsFrom (names.explain e.event) rest

/-- The removals that a task was told. -/
def removals (told : List LogEvent) : List OpenRecord := removalsFrom .empty told

/-- Whether the last removal is open after an event. -/
def leavesOpenAfter (before : Bool) (e : LogEvent) : Bool :=
  if endsRemoval e.event then (removal? .empty e.event).isSome && e.shape = .opening else before

/-- Whether the last removal that a task was told is still open. -/
def leavesOpen (told : List LogEvent) : Bool := told.foldl leavesOpenAfter false

/-- The removed allocation, if it is one. -/
def OpenRecord.allocation? : OpenRecord → Option RemovedAllocation
  | .allocation r => some r
  | .lock _ => none

/-- The removed monitor operation, if it is one. -/
def OpenRecord.lock? : OpenRecord → Option RemovedLock
  | .allocation _ => none
  | .lock r => some r

/-- No more frames. -/
@[simp] theorem OpenRecord.addFrames_nil (r : OpenRecord) : r.addFrames [] = r := by
  cases r <;> simp [addFrames]

/-- One more frame, and then others. -/
theorem OpenRecord.addFrames_cons (r : OpenRecord) (f : Frame) (frames : List Frame) :
    r.addFrames (f :: frames) = (r.addFrame f).addFrames frames := by
  cases r <;> simp [addFrames, addFrame]

end Collect

/-! ### Tasks with these removals -/

open Collect

/-- A task has these removals. -/
structure Task.HasRemovals (removals : List OpenRecord) (t : Task) : Prop where
  /-- Its removed allocations are those among them. -/
  allocations_eq : t.removedAllocations = removals.filterMap OpenRecord.allocation?
  /-- Its removed monitor operations are those among them. -/
  locks_eq : t.removedLocks = removals.filterMap OpenRecord.lock?

namespace Task.HasRemovals

variable {rs : List OpenRecord} {t : Task}

/-- Noting flags. -/
theorem withFlags (h : t.HasRemovals rs) (flags : List TaskFlag) :
    (Collector.withFlags flags t).HasRemovals rs := by
  obtain ⟨flags', heq, -⟩ := Collector.withFlags_eq flags t
  rw [heq]
  exact ⟨h.allocations_eq, h.locks_eq⟩

/-- Noting a flag. -/
theorem flag (h : t.HasRemovals rs) (f : TaskFlag) : (t.flag f).HasRemovals rs :=
  h.withFlags [f]

/-- Noting the call sites that lie outside their callers. -/
theorem flagMisplaced (h : t.HasRemovals rs) : (Collector.flagMisplaced t).HasRemovals rs := by
  rw [Collector.flagMisplaced_eq_withFlags]
  exact h.withFlags _

/-- Noting that the method is not known. -/
theorem flagUnresolved (h : t.HasRemovals rs) : (Collector.flagUnresolved t).HasRemovals rs := by
  unfold Collector.flagUnresolved
  split
  · exact h.flag _
  · exact h

/-- The end of a task that was cut short. -/
theorem cutShort (h : t.HasRemovals rs) : (Collector.cutShort t).HasRemovals rs :=
  flag (t := { t with state := TaskState.abandoned }) ⟨h.allocations_eq, h.locks_eq⟩ _

/-- Whatever may be told of a task before it begins. -/
theorem told (h : t.HasRemovals rs) {f : Task → Task} (hf : Told f) : (f t).HasRemovals rs := by
  cases hf with
  | queued facts hflags =>
    refine withFlags ?_ _
    exact ⟨h.allocations_eq, h.locks_eq⟩
  | installed facts hflags =>
    unfold Collector.install
    refine withFlags ?_ _
    split <;> exact ⟨h.allocations_eq, h.locks_eq⟩
  | printed retain l =>
    have hattached : (t.attachListing l).HasRemovals rs := by
      unfold Task.attachListing
      split
      · exact ⟨h.allocations_eq, h.locks_eq⟩
      · exact h.flag _
    unfold Collector.addListing
    split
    · exact hattached
    · exact ⟨hattached.allocations_eq, hattached.locks_eq⟩

/-- What is said where a task begins. -/
theorem beginTask (h : t.HasRemovals rs) (facts : TaskFacts) (thread : Option String)
    (flags : List TaskFlag) : (Collector.beginTask facts thread flags t).HasRemovals rs := by
  have hstarted : ∀ t : Task, t.HasRemovals rs →
      HasRemovals rs { t with tree := t.tree.withRoot t.method t.bytecodeSize } :=
    fun t h => ⟨h.allocations_eq, h.locks_eq⟩
  unfold Collector.beginTask
  refine withFlags (hstarted _ (flagUnresolved ?_)) flags
  exact ⟨h.allocations_eq, h.locks_eq⟩

/-- The end of a task that is finished. -/
theorem finished {a : Compiling} (h : a.task.HasRemovals rs) (success : Option Bool)
    (nativeSize inlinedBytes : Option UInt64) (stamp : Option Stamp) (flags : List TaskFlag) :
    (a.finished success nativeSize inlinedBytes stamp flags).HasRemovals rs := by
  have hnoted := h.withFlags flags
  unfold Compiling.finished
  simp only
  split
  · exact ⟨hnoted.allocations_eq, hnoted.locks_eq⟩
  · refine flag ?_ _
    exact ⟨hnoted.allocations_eq, hnoted.locks_eq⟩

/-- A bridge to native code has none. -/
theorem wrapperTask (id : UInt64) (facts : NativeFacts) (flags : List TaskFlag) :
    (Collector.wrapperTask id facts flags).HasRemovals [] := by
  refine withFlags (flagUnresolved ?_) flags
  exact ⟨rfl, rfl⟩

end Task.HasRemovals

namespace Collect

/-- No task that waits has any. -/
theorem custody_hasNoRemovals :
    Custody (fun _ t => t.HasRemovals []) (fun _ => True) fun _ => True where
  met _ _ := ⟨rfl, rfl⟩
  told_waiting hf h := h.told hf
  told_active _ _ := trivial
  begun _ _ _ _ := trivial
  heard _ _ _ _ := trivial
  framed _ _ _ _ := trivial
  finished _ _ _ _ _ _ := trivial
  cut _ := trivial
  forgotten _ := trivial
  bridged _ _ _ := trivial

/-! ### The task under way -/

namespace Compiling

variable {c : Compiling} {rs : List OpenRecord}

/-- Noting that something was said. -/
theorem hasRemovals_touch (h : c.task.HasRemovals rs) : c.touch.task.HasRemovals rs := by
  unfold touch onTask
  simp only
  split
  · exact ⟨h.allocations_eq, h.locks_eq⟩
  · exact h

/-- The end of a removal. -/
theorem hasRemovals_closeRecord (h : c.task.HasRemovals rs) :
    c.closeRecord.task.HasRemovals (rs ++ c.record.toList) ∧ c.closeRecord.record = none ∧
      c.closeRecord.names = c.names := by
  obtain ⟨hallocations, hlocks⟩ := h
  unfold closeRecord
  cases hrecord : c.record with
  | none => exact ⟨⟨by simpa using hallocations, by simpa using hlocks⟩, hrecord, rfl⟩
  | some r =>
    cases r <;>
      exact ⟨⟨by simp [hallocations, OpenRecord.allocation?],
        by simp [hlocks, OpenRecord.lock?]⟩, rfl, rfl⟩

/-- The begin of a removal, which ends the one before. -/
theorem hasRemovals_openRecord (h : c.task.HasRemovals rs) (record : OpenRecord)
    (shape : Shape) :
    (c.openRecord record shape).task.HasRemovals
        (rs ++ c.record.toList ++ if shape = .opening then [] else [record]) ∧
      (c.openRecord record shape).record = (if shape = .opening then some record else none) ∧
      (c.openRecord record shape).names = c.names := by
  obtain ⟨hclosed, _, hnames⟩ := hasRemovals_closeRecord (hasRemovals_touch h)
  have hrecord : c.touch.record = c.record := rfl
  rw [hrecord] at hclosed
  unfold openRecord
  simp only
  split
  · exact ⟨by rwa [List.append_nil], rfl, hnames⟩
  · obtain ⟨hagain, hnone, hstill⟩ := hasRemovals_closeRecord
      (c := { c.touch.closeRecord with record := some record }) hclosed
    exact ⟨hagain, hnone, hstill.trans hnames⟩

/-- An event that is about something else leaves the removals. -/
theorem take_other (shape : Shape) {e : Event} (he : endsRemoval e = false)
    (h : c.task.HasRemovals rs) :
    (c.take shape e).task.HasRemovals rs ∧ (c.take shape e).record = c.record ∧
      (c.take shape e).names = c.names.explain e := by
  have htouched := hasRemovals_touch h
  have hsame : ∀ t : Task, t.removedAllocations = c.touch.task.removedAllocations →
      t.removedLocks = c.touch.task.removedLocks → t.HasRemovals rs := fun t ha hl =>
    ⟨ha.trans htouched.allocations_eq, hl.trans htouched.locks_eq⟩
  cases e with
  | typeDef id name => cases id <;> cases name <;> exact ⟨h, rfl, rfl⟩
  | klassDef id name => cases id <;> cases name <;> exact ⟨h, rfl, rfl⟩
  | methodDef id holder name returnType arguments bytes count => cases id <;> exact ⟨h, rfl, rfl⟩
  | parseOpen method stamp =>
    show (c.openBody method).task.HasRemovals rs ∧ _
    unfold take openBody
    simp only
    split
    · split <;> exact ⟨hsame _ rfl rfl, rfl, rfl⟩
    · split <;> exact ⟨htouched, rfl, rfl⟩
  | inlineSuccess reason => exact ⟨hsame _ rfl rfl, rfl, rfl⟩
  | inlineFail reason => exact ⟨hsame _ rfl rfl, rfl, rfl⟩
  | intrinsic name => exact ⟨hsame _ rfl rfl, rfl, rfl⟩
  | uncommonTrap id bci reason action stamp =>
    cases id with
    | none => exact ⟨hsame _ rfl rfl, rfl, rfl⟩
    | some id => exact ⟨h, rfl, rfl⟩
  | eliminateAllocation klass => cases he
  | eliminateLock lock kind => cases he
  | hotThrow preallocated reason => exact ⟨hsame _ rfl rfl, rfl, rfl⟩
  | phase facts => exact ⟨hsame _ rfl rfl, rfl, rfl⟩
  | phaseDone facts =>
    unfold take closePhase
    simp only
    split
    · exact ⟨h, rfl, rfl⟩
    · exact ⟨⟨h.allocations_eq, h.locks_eq⟩, rfl, rfl⟩
  | failure reason stamp => exact ⟨hsame _ rfl rfl, rfl, rfl⟩
  | close of =>
    cases of with
    | parseOpen =>
      unfold take closeBody
      simp only
      split
      · exact ⟨h.flag _, rfl, rfl⟩
      · exact ⟨h, rfl, rfl⟩
    | eliminateAllocation => cases he
    | eliminateLock => cases he
    | _ => exact ⟨h, rfl, rfl⟩
  | _ => exact ⟨h, rfl, rfl⟩

end Compiling

/-! ### What a task was told -/

/-- The task under way has the removals that it was told, except for the one that is being told.
Whatever is told next goes on from there. -/
structure RemovalsKept (told : List LogEvent) (a : Compiling) : Prop where
  /-- A removal is being told if the last one is open. -/
  isSome_record : a.record.isSome = leavesOpen told
  /-- The removals told before are recorded. -/
  recorded : ∃ rs, a.task.HasRemovals rs ∧ ∀ rest, removalsFrom .empty (told ++ rest) =
    rs ++ (a.record.map (OpenRecord.addFrames (framesFrom a.names rest))).toList ++
      removalsFrom a.names rest

/-- Whether a removal is open after another event. -/
theorem leavesOpen_append (told : List LogEvent) (e : LogEvent) :
    leavesOpen (told ++ [e]) = leavesOpenAfter (leavesOpen told) e :=
  List.foldl_append

/-- What is about a removal explains no number. -/
theorem explain_of_endsRemoval (names : Dictionary) {e : Event} (he : endsRemoval e = true) :
    names.explain e = names := by
  cases e <;> first | rfl | cases he

/-- What tells of a removal ends the one before. -/
theorem removal?_eq_none (names : Dictionary) {e : Event} (he : endsRemoval e = false) :
    removal? names e = none := by
  cases e <;> first | rfl | cases he

/-- Whether an event tells of a removal does not depend on what numbers stand for. -/
theorem isSome_removal? (names names' : Dictionary) (e : Event) :
    (removal? names e).isSome = (removal? names' e).isSome := by
  cases e <;> rfl

namespace RemovalsKept

variable {told : List LogEvent} {a a' : Compiling} {e : LogEvent}

/-- A task that begins was told of no removal. -/
theorem start {t : Task} (ht : t.HasRemovals []) {facts : TaskFacts}
    (he : e.event = .taskStart facts) : RemovalsKept [e] (.start t) := by
  have hends : endsRemoval e.event = false := by rw [he]; rfl
  refine ⟨?_, [], ht, fun rest => ?_⟩
  · simp [leavesOpen, leavesOpenAfter, hends, Compiling.start]
  · simp [removalsFrom, removal?, he, Dictionary.explain, Compiling.start]

/-- Something is told that may be told before a task begins. -/
theorem note (h : RemovalsKept told a) {f : Task → Task} (hf : Told f) :
    RemovalsKept told { a with task := f a.task } := by
  obtain ⟨hopen, rs, hrs, hrest⟩ := h
  exact ⟨hopen, rs, hrs.told hf, hrest⟩

/-- An event ends the removal that is being told, if one is, and may tell of another. -/
theorem ended (h : RemovalsKept told a) (he : endsRemoval e.event = true)
    (hnames : a'.names = a.names)
    (htask : ∀ rs, a.task.HasRemovals rs → a'.task.HasRemovals (rs ++ a.record.toList ++
      if e.shape = .opening then [] else (removal? a.names e.event).toList))
    (hrecord : a'.record = if e.shape = .opening then removal? a.names e.event else none) :
    RemovalsKept (told ++ [e]) a' := by
  obtain ⟨_, rs, hrs, hrest⟩ := h
  refine ⟨?_, _, htask rs hrs, fun rest => ?_⟩
  · rw [leavesOpen_append, hrecord]
    unfold leavesOpenAfter
    rw [if_pos he, isSome_removal? .empty a.names]
    split <;> simp [*]
  · have hnext := hrest (e :: rest)
    have hframes : framesFrom a.names (e :: rest) = [] := by simp [framesFrom, he]
    have hended : a.record.map (OpenRecord.addFrames []) = a.record := by
      cases a.record <;> simp
    rw [hframes, hended, removalsFrom, explain_of_endsRemoval _ he] at hnext
    rw [List.append_assoc, List.singleton_append, hnext, hrecord, hnames]
    split
    · simp
    · cases removal? a.names e.event <;> simp

/-- An event that is about something else. -/
theorem other (h : RemovalsKept told a) (he : endsRemoval e.event = false)
    (hframe : ∀ names, frame? names e.event = none)
    (hnames : a'.names = a.names.explain e.event)
    (htask : ∀ rs, a.task.HasRemovals rs → a'.task.HasRemovals rs)
    (hrecord : a'.record = a.record) : RemovalsKept (told ++ [e]) a' := by
  obtain ⟨hopen, rs, hrs, hrest⟩ := h
  refine ⟨?_, rs, htask rs hrs, fun rest => ?_⟩
  · rw [leavesOpen_append, hrecord, hopen]
    simp [leavesOpenAfter, he]
  · have hnext := hrest (e :: rest)
    have hframes : framesFrom a.names (e :: rest) = framesFrom a'.names rest := by
      simp [framesFrom, he, hframe, hnames]
    rw [hframes, removalsFrom, removal?_eq_none _ he, ← hnames] at hnext
    rw [List.append_assoc, List.singleton_append, hnext, hrecord]
    rfl

/-- A frame is one of the removal that is being told, if one is. -/
theorem framed (h : RemovalsKept told a) {bci : Option UInt32} {method : Option Method}
    {methodId : Option UInt64} (he : e.event = .jvms bci method methodId) :
    RemovalsKept (told ++ [e]) (a.addFrame bci method methodId) := by
  obtain ⟨hopen, rs, hrs, hrest⟩ := h
  have hends : endsRemoval e.event = false := by rw [he]; rfl
  refine ⟨?_, rs, hrs, fun rest => ?_⟩
  · rw [leavesOpen_append]
    unfold Compiling.addFrame
    rw [Option.isSome_map, hopen]
    simp [leavesOpenAfter, hends]
  · have hnext := hrest (e :: rest)
    have hframes : framesFrom a.names (e :: rest) =
        ⟨method.getD (a.names.methodOf methodId), bci⟩ :: framesFrom a.names rest := by
      rw [framesFrom, if_neg (by simp [hends])]
      simp [he, frame?, Dictionary.explain]
    have hremovals : removalsFrom a.names (e :: rest) = removalsFrom a.names rest := by
      simp [removalsFrom, he, removal?, Dictionary.explain]
    rw [hframes, hremovals] at hnext
    rw [List.append_assoc, List.singleton_append, hnext]
    unfold Compiling.addFrame
    rw [Option.map_map]
    cases a.record with
    | none => rfl
    | some r => simp only [Option.map_some, Function.comp_apply, OpenRecord.addFrames_cons]

/-- Whatever an event says about the task under way. -/
theorem take (h : RemovalsKept told a) (he : bearing e.event = .tells) (flags : List TaskFlag) :
    RemovalsKept (told ++ [e])
      ({ a with task := Collector.withFlags flags a.task }.take e.shape e.event) := by
  have hnoted : ∀ rs, a.task.HasRemovals rs →
      (Collector.withFlags flags a.task).HasRemovals rs := fun rs hrs => hrs.withFlags flags
  cases hends : endsRemoval e.event with
  | false =>
    have hsame := fun rs hrs => Compiling.take_other
      (c := { a with task := Collector.withFlags flags a.task }) e.shape hends (hnoted rs hrs)
    obtain ⟨rs, hrs, _⟩ := h.recorded
    refine h.other hends (fun names => ?_) (hsame rs hrs).2.2 (fun rs hrs => (hsame rs hrs).1)
      (hsame rs hrs).2.1
    cases hevent : e.event with
    | jvms bci method methodId => rw [hevent] at he; cases he
    | _ => rfl
  | true =>
    obtain ⟨shape, tag, event, unread, depth, parent, position⟩ := e
    let noted : Compiling := { a with task := Collector.withFlags flags a.task }
    have hrecorded : ∀ record, removal? a.names event = some record →
        RemovalsKept (told ++ [⟨shape, tag, event, unread, depth, parent, position⟩])
          (noted.openRecord record shape) := by
      intro record hrecord
      have hopened := fun rs hrs => Compiling.hasRemovals_openRecord (c := noted)
        (hnoted rs hrs) record shape
      obtain ⟨rs, hrs, _⟩ := h.recorded
      refine h.ended hends (hopened rs hrs).2.2 (fun rs hrs => ?_) ?_
      · rw [hrecord]
        exact (hopened rs hrs).1
      · rw [hrecord]
        exact (hopened rs hrs).2.1
    have hclosed : removal? a.names event = none →
        RemovalsKept (told ++ [⟨shape, tag, event, unread, depth, parent, position⟩])
          noted.closeRecord := by
      intro hnone
      have hclosed := fun rs hrs => Compiling.hasRemovals_closeRecord (c := noted)
        (hnoted rs hrs)
      obtain ⟨rs, hrs, _⟩ := h.recorded
      refine h.ended hends (hclosed rs hrs).2.2 (fun rs hrs => ?_) ?_
      · simpa [hnone] using (hclosed rs hrs).1
      · simpa [hnone] using (hclosed rs hrs).2.1
    cases event with
    | eliminateAllocation klass => exact hrecorded _ rfl
    | eliminateLock lock kind => exact hrecorded _ rfl
    | close of =>
      cases of with
      | eliminateAllocation => exact hclosed rfl
      | eliminateLock => exact hclosed rfl
      | _ => cases hends
    | _ => cases hends

/-- Each way of telling the task under way more keeps its removals recorded. -/
theorem listener : Listener (fun _ t => t.HasRemovals []) RemovalsKept where
  begun thread he hflags htaken := by
    refine .start (Task.HasRemovals.beginTask ?_ _ thread _) he
    cases htaken with
    | waiting h => exact ⟨h.allocations_eq, h.locks_eq⟩
    | new => exact ⟨rfl, rfl⟩
    | again => exact Task.HasRemovals.flag ⟨rfl, rfl⟩ _
  noted hf h := h.note hf
  heard he _ h := h.take he _
  framed he h := h.framed he

end RemovalsKept

/-! ### The tasks that are handed over -/

/-- A task has the removals that it was told. If the last one was still open, nothing is said of
it. -/
def HasRemovalsTold (told : List LogEvent) (t : Task) : Prop :=
  ∃ rs, t.HasRemovals rs ∧
    (removals told = rs ∨ leavesOpen told = true ∧ ∃ last, removals told = rs ++ [last])

/-- A task that is handed over as the one that was under way has the removals that it was told. -/
theorem RemovalsKept.leaves {told : List LogEvent} {a : Compiling} (h : RemovalsKept told a)
    {t : Task} (ht : LeavesAs a t) : HasRemovalsTold told t := by
  obtain ⟨hopen, rs, hrs, hrest⟩ := h
  refine ⟨rs, ?_, ?_⟩
  · cases ht with
    | finished success nativeSize inlinedBytes stamp hflags =>
      exact (hrs.finished success nativeSize inlinedBytes stamp _).flagMisplaced
    | cut => exact hrs.cutShort.flagMisplaced
  · have htold := hrest []
    rw [List.append_nil] at htold
    unfold removals
    rw [htold, ← hopen]
    cases a.record with
    | none => exact .inl (by simp [removalsFrom])
    | some r => exact .inr ⟨rfl, r, by simp [removalsFrom, framesFrom]⟩

/-- A task that never began has no removals. -/
theorem Unbegun.hasNoRemovals {t : Task} (h : Unbegun (fun _ t => t.HasRemovals []) t) :
    t.HasRemovals [] := by
  cases h with
  | forgotten h => exact h.cutShort.flagMisplaced
  | bridged id facts hflags => exact (Task.HasRemovals.wrapperTask id facts _).flagMisplaced

namespace Collector

/-- Removals are not lost. Whatever a collector is given, every task that it hands over has the
removals that it was told, in order and each with its frames; a task that never began has none. Of a
removal that is still open where the task ends nothing is said. -/
theorem removals_recorded (retain : Bool) (inputs : List Input) (input : Input) :
    ∃ (mine : Option Task) (others : List Task),
      tasksOf ((feed retain inputs).1.give input).2 = mine.toList ++ others ∧
      (∀ t ∈ others, t.removedAllocations = [] ∧ t.removedLocks = []) ∧
      Option.Rel HasRemovalsTold (if input.endsTask then (transcript inputs).told else none)
        mine := by
  have hattends := RemovalsKept.listener.attends_feed custody_hasNoRemovals retain inputs
  obtain ⟨mine, others, hsplit, hothers, hmine⟩ :=
    (RemovalsKept.listener.attends_give custody_hasNoRemovals hattends input).2
  refine ⟨mine, others, hsplit, fun t ht => ?_, ?_⟩
  · have hnone := (hothers t ht).hasNoRemovals
    exact ⟨hnone.allocations_eq, hnone.locks_eq⟩
  · generalize (if input.endsTask then (transcript inputs).told else none) = told at hmine ⊢
    cases hmine with
    | none => exact .none
    | some hleaves =>
      obtain ⟨a, hrecorded, hleft⟩ := hleaves
      exact .some (hrecorded.leaves hleft)

/-- Frames that are told while a trap is open are those of the trap, also inside the element of a
removal: the removed allocation is left without the frame that is told there. -/
theorem frame_inside_removal_taken_by_trap :
    let log := Text.Utf8.encode ("<task compile_id='1' method='A a ()V'>" ++
      "<eliminate_allocation type='4'><uncommon_trap compile_id='9'>" ++
      "<jvms bci='3' method='B b ()V'/></uncommon_trap></eliminate_allocation>" ++
      "<task_done/></task>")
    let events := (Markup.read .never log).fragments.map (decode .builtin)
    (tasksOf (collect false events).2).map (fun t => t.removedAllocations.map fun r =>
        r.frames.map Frame.bci) = [[[]]] ∧
      (framesFrom .empty (events.drop 2)).map Frame.bci = [some 3] := by
  decide +kernel

end Collector

end Collect

end CompileLog

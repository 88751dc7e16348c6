import CompileLog.Proofs.Collect.Cut
import CompileLog.Proofs.Collect.Duplicates
import CompileLog.Proofs.Collect.Tally
import CompileLog.Proofs.Collect.Transcript
import Mathlib.Data.List.Infix

/-!
# Counting numbers that are used again

A collector counts the tasks that begin under a number of which a task was handed over, and flags
them, and flags no other. A task that begins without a number begins under one that stands for none,
and this one counts like any other. So of the tasks without a number every one but the first is taken
for a repetition, although nothing tells that they have to do with one another.
-/

namespace CompileLog

/-- Whether a task is flagged as one whose number was used before. -/
def Task.isRepeat (t : Task) : Bool := decide (.duplicateCompileId ∈ t.flags)

/-- Tasks of which both or neither is flagged. -/
theorem Task.SameNumber.isRepeat_eq {t t' : Task} (h : t.SameNumber t') :
    t'.isRepeat = t.isRepeat :=
  decide_eq_decide.mpr h.duplicate_iff

namespace Collect

namespace Collector

/-- The number of flagged tasks under way, one or none. -/
def repeats (c : Collector) : Nat := c.active.toList.countP fun a => a.task.isRepeat

/-- Where the task under way stays that task, as many are flagged. -/
theorem repeats_congr {c c' : Collector} {a a' : Compiling} (hactive : c.active = some a)
    (hactive' : c'.active = some a') (hsame : a.task.SameNumber a'.task) :
    c'.repeats = c.repeats := by
  unfold repeats
  rw [hactive, hactive']
  simp only [Option.toList_some, List.countP_singleton, hsame.isRepeat_eq]

end Collector

/-- Whatever is said about the task under way leaves its marks. -/
theorem Compiling.sameMarks_take (a : Compiling) (shape : Shape) (e : Event) :
    a.task.SameMarks (a.take shape e).task := by
  cases he : e.isFailure with
  | true =>
    cases e with
    | failure reason stamp => exact (a.take_failure shape reason stamp).1
    | _ => cases he
  | false => exact (a.sameCourse_take shape he).toSameMarks

/-! ### Operations -/

/-- An operation that begins this many tasks under numbers that were used before: it counts as many,
and flags as many, of which one may be under way and the others are handed over. -/
structure Reckons (again : Nat) (c : Collector) (r : Collector × List Item) : Prop where
  /-- They are counted. -/
  counted : r.1.counts.duplicateStarts = c.counts.duplicateStarts + again
  /-- They are flagged. -/
  flagged : r.1.repeats + (tasksOf r.2).countP Task.isRepeat = c.repeats + again

namespace Reckons

variable {c c' : Collector} {items : List Item} {again again' : Nat}

/-- Where no task is handed over, none is flagged. -/
theorem of_tasksOf_eq_nil {r : Collector × List Item} (hitems : tasksOf r.2 = [])
    (hrepeats : r.1.repeats = c.repeats)
    (hcounted : r.1.counts.duplicateStarts = c.counts.duplicateStarts) : Reckons 0 c r := by
  refine ⟨hcounted, ?_⟩
  rw [hitems, List.countP_nil, hrepeats]

/-- Two operations one after the other. -/
theorem trans {r : Collector × List Item} (h : Reckons again c (c', items))
    (h' : Reckons again' c' r) : Reckons (again + again') c (r.1, items ++ r.2) := by
  obtain ⟨hcounted, hflagged⟩ := h
  obtain ⟨hcounted', hflagged'⟩ := h'
  refine ⟨?_, ?_⟩
  · simp only at hcounted ⊢
    omega
  · simp only [tasksOf_append, List.countP_append] at hflagged ⊢
    omega

/-- An operation depends on the task under way and on the counter alone. -/
theorem congr {r : Collector × List Item} (h : Reckons again c' r)
    (hactive : c'.active = c.active)
    (hcounts : c'.counts.duplicateStarts = c.counts.duplicateStarts) : Reckons again c r := by
  refine ⟨?_, ?_⟩
  · rw [← hcounts]
    exact h.counted
  · have hrepeats : c'.repeats = c.repeats := by
      unfold Collector.repeats
      rw [hactive]
    rw [← hrepeats]
    exact h.flagged

/-- One operation after the other, as many as there are. -/
theorem each {α : Type} {f : Collector → α → Collector × List Item}
    (hf : ∀ c a, Reckons 0 c (f c a)) (c : Collector) (l : List α) :
    Reckons 0 c (c.each f l) := by
  induction l generalizing c with
  | nil => exact .of_tasksOf_eq_nil rfl rfl rfl
  | cons a rest ih => exact (hf c a).trans (ih (f c a).1)

end Reckons

namespace Collector

variable (c : Collector)

/-- The number of a task that is handed over was counted where it began. -/
theorem duplicateStarts_handOver (t : Task) :
    (c.handOver t).1.counts.duplicateStarts = c.counts.duplicateStarts := by
  unfold handOver count
  simp only
  split <;> rfl

/-- A task that is not flagged is handed over. -/
theorem reckons_handOver {t : Task} (ht : (flagMisplaced t).isRepeat = false) :
    Reckons 0 c (c.handOver t) := by
  refine ⟨c.duplicateStarts_handOver t, ?_⟩
  rw [tasksOf_handOver, List.countP_singleton, ht]
  rfl

/-- The task under way is handed over. -/
theorem reckons_leave {c : Collector} {a : Compiling} (hactive : c.active = some a) {t : Task}
    (hsame : a.task.SameNumber (flagMisplaced t)) :
    Reckons 0 c ({ c with active := none }.handOver t) := by
  refine ⟨duplicateStarts_handOver { c with active := none } t, ?_⟩
  have hnone : ({ c with active := none }.handOver t).1.repeats = 0 := rfl
  rw [tasksOf_handOver, hnone]
  unfold repeats
  rw [hactive, Option.toList_some, List.countP_singleton, List.countP_singleton, hsame.isRepeat_eq,
    Nat.zero_add, Nat.add_zero]

/-- The task under way is cut short. -/
theorem reckons_abandonActive : Reckons 0 c c.abandonActive := by
  unfold abandonActive
  cases hactive : c.active with
  | none => exact .of_tasksOf_eq_nil rfl rfl rfl
  | some a => exact reckons_leave hactive (.cutShort a.task)

/-- The task under way is finished. -/
theorem reckons_finishTask (success : Option Bool) (nativeSize inlinedBytes : Option UInt64)
    (stamp : Option Stamp) {flags : List TaskFlag} (hflags : Unread flags) :
    Reckons 0 c (c.finishTask success nativeSize inlinedBytes stamp flags) := by
  cases hactive : c.active with
  | none =>
    unfold finishTask
    rw [hactive]
    exact .of_tasksOf_eq_nil rfl rfl rfl
  | some a =>
    obtain ⟨sample, hsample, heq⟩ :=
      finishTask_of_active hactive success nativeSize inlinedBytes stamp flags
    obtain ⟨hmarks, _⟩ := a.finished_course success nativeSize inlinedBytes stamp hflags
    have hsame := hmarks.trans (Task.SameCourse.flagMisplaced _).toSameMarks
    have hsampled : Reckons 0 c (c, sample) := .of_tasksOf_eq_nil hsample rfl rfl
    rw [heq]
    exact hsampled.trans (reckons_leave hactive hsame.sameNumber)

/-- More is told of a task that is not handed over. -/
theorem repeats_putTask {c : Collector} {id : UInt64} {t t' : Task}
    (hopen : c.openTask? id = some t) (hsame : t.SameNumber t') :
    (c.putTask id t').repeats = c.repeats := by
  obtain ⟨a, hunderway, rfl, _, heq⟩ | ⟨_, _, heq⟩ := putTask_cases hopen t'
  · rw [heq]
    exact repeats_congr hunderway rfl hsame
  · rw [heq]
    rfl

/-- More is told of a task that may not have been met. -/
theorem reckons_onTask (id : UInt64) (method : Option Method) {f : Task → Task} (hf : Told f) :
    Reckons 0 c (c.onTask id method f, []) := by
  obtain ⟨t, hopen, heq⟩ | ⟨_, heq⟩ := c.onTask_cases id method f
  · have hsame := (Task.SameCourse.told hf t).sameNumber
    rw [heq]
    refine .of_tasksOf_eq_nil rfl (repeats_putTask hopen hsame) ?_
    rw [counts_putTask]
  · rw [heq]
    exact .of_tasksOf_eq_nil rfl rfl rfl

/-- A task is queued. -/
theorem reckons_queueTask (facts : TaskFacts) {flags : List TaskFlag} (hflags : Unread flags) :
    Reckons 0 c (c.queueTask facts flags, []) := by
  unfold queueTask
  split
  · exact .of_tasksOf_eq_nil rfl rfl rfl
  · split
    · exact .of_tasksOf_eq_nil rfl rfl rfl
    · exact c.reckons_onTask _ _ (.queued facts hflags)

/-- Code is installed. -/
theorem reckons_installCode (facts : NativeFacts) {flags : List TaskFlag} (hflags : Unread flags) :
    Reckons 0 c (c.installCode facts flags) := by
  obtain heq | ⟨id, addresses, ⟨_, heq⟩ | ⟨_, _, heq⟩ | ⟨_, heq⟩⟩ := c.installCode_cases facts flags
  all_goals rw [heq]
  · exact .of_tasksOf_eq_nil rfl rfl rfl
  · exact .of_tasksOf_eq_nil rfl rfl rfl
  · obtain ⟨_, _, hmarks⟩ := wrapperTask_course id facts hflags
    exact .congr (reckons_handOver { c with addresses } (decide_eq_false (hmarks _ rfl))) rfl rfl
  · exact .congr (reckons_onTask { c with addresses } id _ (.installed facts hflags)) rfl rfl

/-- A listing is placed. -/
theorem reckons_placeListing (l : Listing) : Reckons 0 c (c.placeListing l) := by
  unfold placeListing
  split
  · exact .of_tasksOf_eq_nil rfl rfl rfl
  · split
    · next t hopen =>
      have hsame := (Task.SameCourse.addListing c.retainListings l t).sameNumber
      refine .of_tasksOf_eq_nil rfl (repeats_putTask hopen hsame) ?_
      rw [counts_putTask]
    · exact .of_tasksOf_eq_nil rfl rfl rfl

/-- The printed machine code is read. -/
theorem reckons_flush : Reckons 0 c c.flush := by
  have hplaced : Reckons 0 { c with printed := "" } c.flush :=
    .each (fun c l => c.reckons_placeListing l) _ _
  exact hplaced.congr rfl rfl

/-- Something is said about the task under way. -/
theorem reckons_takeInTask (shape : Shape) (e : Event) {flags : List TaskFlag}
    (hflags : Unread flags) : Reckons 0 c (c.takeInTask shape e flags, []) := by
  unfold takeInTask
  cases hactive : c.active with
  | none =>
    simp only
    split <;> exact .of_tasksOf_eq_nil rfl rfl rfl
  | some a =>
    have hmarks := (Task.SameCourse.withUnread hflags a.task).toSameMarks.trans
      (Compiling.sameMarks_take { a with task := withFlags flags a.task } shape e)
    exact .of_tasksOf_eq_nil rfl (repeats_congr hactive rfl hmarks.sameNumber) rfl

/-- A frame is told. -/
theorem reckons_takeFrame (bci : Option UInt32) (method : Option Method)
    (methodId : Option UInt64) : Reckons 0 c (c.takeFrame bci method methodId, []) := by
  unfold takeFrame
  split
  · split <;> exact .of_tasksOf_eq_nil rfl rfl rfl
  · refine .of_tasksOf_eq_nil rfl ?_ rfl
    unfold repeats
    cases c.active <;> rfl

/-! ### A task begins -/

/-- A task is taken from those that wait, where none with its number was handed over, or is new. It
is flagged if its number was used before. -/
theorem takeWaiting_again {items : List Item} {heard : Option (List Event)}
    (h : Desk.Numbered items (c.desk heard)) (id : UInt64) :
    (c.takeWaiting id).1.counts.duplicateStarts =
        c.counts.duplicateStarts + (c.isHandedOver id).toNat ∧
      (c.takeWaiting id).2.isRepeat = c.isHandedOver id ∧
      (c.takeWaiting id).1.handedOver = c.handedOver := by
  unfold takeWaiting
  split
  · next t hwaiting =>
    have hawaits := h.apart.awaits id t hwaiting
    have hunused : c.isHandedOver id = false := hawaits.not_isHandedOver
    rw [hunused]
    refine ⟨rfl, decide_eq_false fun hmem => ?_, rfl⟩
    exact hawaits.new (List.mem_filter.mp hmem).1
  · simp only
    cases c.isHandedOver id with
    | true => exact ⟨rfl, decide_eq_true List.mem_cons_self, rfl⟩
    | false => exact ⟨rfl, rfl, rfl⟩

/-- A task begins. It is counted and flagged if one with its number was handed over. -/
theorem reckons_startTask {items : List Item}
    (h : Desk.Numbered items (c.abandonActive.1.desk none)) (facts : TaskFacts)
    {flags : List TaskFlag} (hflags : Unread flags) :
    Reckons ((c.startTask facts flags).1.isHandedOver (facts.compileId.getD noId)).toNat c
      (c.startTask facts flags) := by
  unfold startTask
  simp only
  generalize hcounted : (if facts.compileId.isNone = true then c.abandonActive.1.countStray
    else c.abandonActive.1) = counted
  have hsame : counted.counts.duplicateStarts = c.abandonActive.1.counts.duplicateStarts ∧
      counted.active = none ∧ counted.desk none = c.abandonActive.1.desk none := by
    subst hcounted
    split <;> exact ⟨rfl, c.active_abandonActive, rfl⟩
  obtain ⟨hstarts, hidle, hdesk⟩ := hsame
  rw [← hdesk] at h
  obtain ⟨hagain, hrepeat, hhanded⟩ := counted.takeWaiting_again h (facts.compileId.getD noId)
  generalize counted.takeWaiting (facts.compileId.getD noId) = taken at hagain hrepeat hhanded
  have hbegun := Task.SameCourse.beginTask facts taken.1.thread hflags taken.2
  have hunderway : isHandedOver { taken.1 with
      active := some (.start (beginTask facts taken.1.thread flags taken.2)) }
        (facts.compileId.getD noId) = counted.isHandedOver (facts.compileId.getD noId) := by
    unfold isHandedOver
    rw [← hhanded]
  rw [hunderway]
  have hbegins : Reckons (counted.isHandedOver (facts.compileId.getD noId)).toNat c.abandonActive.1
      ({ taken.1 with
        active := some (.start (beginTask facts taken.1.thread flags taken.2)) }, []) := by
    refine ⟨hagain.trans (congrArg (· + _) hstarts), ?_⟩
    have hnone : c.abandonActive.1.repeats = 0 := by
      unfold repeats
      rw [c.active_abandonActive]
      rfl
    have hone : repeats { taken.1 with
        active := some (.start (beginTask facts taken.1.thread flags taken.2)) } =
          (counted.isHandedOver (facts.compileId.getD noId)).toNat := by
      show List.countP _ [Compiling.start (beginTask facts taken.1.thread flags taken.2)] = _
      have hflag : (Compiling.start (beginTask facts taken.1.thread flags taken.2)).task.isRepeat =
          counted.isHandedOver (facts.compileId.getD noId) :=
        hbegun.sameNumber.isRepeat_eq.trans hrepeat
      rw [List.countP_singleton, hflag]
      cases counted.isHandedOver (facts.compileId.getD noId) <;> rfl
    rw [hone, hnone]
    exact (Nat.zero_add _).symm
  have hboth := c.reckons_abandonActive.trans hbegins
  rw [List.append_nil, Nat.zero_add] at hboth
  exact hboth

/-! ### Events -/

/-- The number under which an event begins a task: the one that it tells, or the one that stands for
none. -/
def beginsUnder? : Event → Option UInt64
  | .taskStart facts => some (facts.compileId.getD noId)
  | _ => none

/-- Whatever an event says, the task that it begins is counted and flagged if one with its number
was handed over. -/
theorem reckons_take {c : Collector} {items : List Item} {heard : Option (List Event)}
    (h : Desk.Numbered items (c.desk heard)) (shape : Shape) {flags : List TaskFlag}
    (hflags : Unread flags) (e : Event) :
    Reckons ((beginsUnder? e).any (c.take shape flags e).1.isHandedOver).toNat c
      (c.take shape flags e) := by
  have hother : ∀ {e : Event}, opensTask e = false → beginsUnder? e = none := by
    intro e he
    cases e <;> first | rfl | cases he
  have hdoes := c.does_take shape flags e
  generalize c.take shape flags e = taken at hdoes
  cases hdoes with
  | queues facts => exact c.reckons_queueTask facts hflags
  | starts facts => exact c.reckons_startTask (h.moves (c.moves_abandonActive heard)) facts hflags
  | finishes success nativeSize inlinedBytes stamp => exact c.reckons_finishTask _ _ _ _ hflags
  | installs facts => exact c.reckons_installCode facts hflags
  | cutsShort he thread =>
    rw [hother he]
    exact ⟨c.reckons_abandonActive.counted, c.reckons_abandonActive.flagged⟩
  | flushes he =>
    rw [hother he]
    exact c.reckons_flush
  | tells he =>
    rw [hother he]
    exact c.reckons_takeInTask _ _ hflags
  | frames bci method methodId => exact c.reckons_takeFrame _ _ _
  | passes he hsame hitems =>
    rw [hother he]
    refine .of_tasksOf_eq_nil hitems ?_ hsame.duplicateStarts_eq
    unfold repeats
    rw [hsame.active_eq]

/-- Whatever the next event says, the task that it begins is counted and flagged if one with its
number was handed over. -/
theorem reckons_accept {c : Collector} {items : List Item} {heard : Option (List Event)}
    (h : Desk.Numbered items (c.desk heard)) (e : LogEvent) :
    Reckons ((beginsUnder? e.event).any (c.accept e).1.isHandedOver).toNat c (c.accept e) := by
  have hflushed : Reckons 0 c (c.flushBefore e.event) := by
    unfold flushBefore
    split
    · exact .of_tasksOf_eq_nil rfl rfl rfl
    · exact c.reckons_flush
  have hnumbered := h.moves (c.moves_flushBefore heard e.event)
  have htaken := reckons_take (c := (c.flushBefore e.event).1.count fun n =>
    { n with unreadAttributes := n.unreadAttributes + e.unread.length }) hnumbered e.shape
    (unread_unreadFlags e) e.event
  have hboth := hflushed.trans (htaken.congr (c := (c.flushBefore e.event).1) rfl rfl)
  rw [Nat.zero_add] at hboth
  exact hboth

/-- Tasks that are not flagged are handed over one by one. -/
theorem reckons_forgetting {l : List Task} (h : ∀ t ∈ l, t.isRepeat = false) (c : Collector) :
    Reckons 0 c (c.each (fun c t => c.handOver (cutShort t)) l) := by
  induction l generalizing c with
  | nil => exact .of_tasksOf_eq_nil rfl rfl rfl
  | cons t rest ih =>
    have ht : (flagMisplaced (cutShort t)).isRepeat = false :=
      (Task.SameNumber.cutShort t).isRepeat_eq.trans (h t List.mem_cons_self)
    exact (c.reckons_handOver ht).trans (ih (fun t' ht' => h t' (List.mem_cons_of_mem t ht')) _)

/-- Where a log ends no task begins. -/
theorem reckons_finish {c : Collector} {items : List Item} {heard : Option (List Event)}
    (h : Desk.Numbered items (c.desk heard)) : Reckons 0 c c.finish := by
  have hreleased : Reckons 0 c.flush.1 c.flush.1.releaseTrap ∧
      Desk.Numbered (items ++ c.flush.2) (c.flush.1.releaseTrap.1.desk heard) := by
    unfold releaseTrap
    split <;> exact ⟨.of_tasksOf_eq_nil rfl rfl rfl, h.moves (c.moves_flush heard)⟩
  have hcut := hreleased.2.moves (moves_abandonActive _ heard)
  have hwaiting : ∀ t ∈ c.flush.1.releaseTrap.1.abandonActive.1.waiting.entries.map Prod.snd,
      t.isRepeat = false := by
    intro t ht
    obtain ⟨e, he, rfl⟩ := List.mem_map.mp ht
    exact decide_eq_false (hcut.apart.awaits e.1 e.2 (KeyMap.get?_of_mem_entries he)).new
  have hforgotten : Reckons 0 c.flush.1.releaseTrap.1.abandonActive.1
      c.flush.1.releaseTrap.1.abandonActive.1.abandonWaiting :=
    .congr (reckons_forgetting hwaiting _) rfl rfl
  exact ((c.reckons_flush.trans hreleased.1).trans (reckons_abandonActive _)).trans hforgotten

/-! ### Logs -/

/-- Whether the last of some events begins a task under a number, and a task with that number has
been handed over by then. -/
def startsAgain (retain : Bool) (number? : Event → Option UInt64) (events : List LogEvent) : Bool :=
  match events.getLast? with
  | none => false
  | some e =>
    (number? e.event).any fun id =>
      (tasksOf ((start retain).acceptAll events).2).any fun t => t.compileId = id

/-- One event more is taken in behind the others. -/
theorem acceptAll_concat (c : Collector) (events : List LogEvent) (e : LogEvent) :
    c.acceptAll (events ++ [e]) =
      (((c.acceptAll events).1.accept e).1,
        (c.acceptAll events).2 ++ ((c.acceptAll events).1.accept e).2) := by
  unfold acceptAll
  rw [each_append]
  simp only [each, List.append_nil]

/-- Whatever a log says, the numbers of its tasks are kept apart and recorded. -/
theorem numbered_acceptAll (retain : Bool) (events : List LogEvent) :
    Desk.Numbered ((start retain).acceptAll events).2
      (((start retain).acceptAll events).1.desk (underway (events.map .event))) := by
  have h := numbered_feed retain (events.map .event)
  unfold feed at h
  rw [each_give_events] at h
  exact h

/-- The prefixes of some events with one more are their prefixes, and all of them. -/
theorem countP_inits_concat (p : List LogEvent → Bool) (events : List LogEvent) (e : LogEvent) :
    (events ++ [e]).inits.countP p = events.inits.countP p + (p (events ++ [e])).toNat := by
  rw [List.inits_append, List.countP_append]
  show _ + List.countP p [events ++ [e]] = _
  rw [List.countP_singleton]
  cases p (events ++ [e]) <;> rfl

/-- A log has as many tasks counted, and flagged, as begin under a number of which a task was handed
over. By induction on the events from the last one on. -/
theorem reckons_acceptAll (retain : Bool) (events : List LogEvent) :
    Reckons (events.inits.countP (startsAgain retain beginsUnder?)) (start retain)
      ((start retain).acceptAll events) := by
  induction events using List.reverseRecOn with
  | nil => exact .of_tasksOf_eq_nil rfl rfl rfl
  | append_singleton events e ih =>
    have hlast := reckons_accept (numbered_acceptAll retain events) e
    have hnumbered := numbered_acceptAll retain (events ++ [e])
    rw [acceptAll_concat] at hnumbered
    have hagain : startsAgain retain beginsUnder? (events ++ [e]) =
        (beginsUnder? e.event).any
          (((start retain).acceptAll events).1.accept e).1.isHandedOver := by
      unfold startsAgain
      rw [List.getLast?_concat, acceptAll_concat]
      simp only
      refine congrArg (fun p => (beginsUnder? e.event).any p) (funext fun id => ?_)
      rw [Bool.eq_iff_iff, List.any_eq_true]
      simp only [decide_eq_true_eq]
      exact (hnumbered.recorded.handedOver id).symm
    rw [countP_inits_concat, hagain, acceptAll_concat]
    exact ih.trans hlast

/-! ### Tasks without a number -/

/-- The number that a start tells. -/
def startNumber? : Event → Option UInt64
  | .taskStart facts => facts.compileId
  | _ => none

/-- Whether an event begins a task without a number. -/
def isUnnumbered : Event → Bool
  | .taskStart facts => facts.compileId.isNone
  | _ => false

/-- The number of the task that an event may open, if it tells one. -/
def openedNumber? : Event → Option UInt64
  | .taskStart facts | .taskQueued facts => facts.compileId
  | .nmethod facts => facts.compileId
  | _ => none

/-- An event that begins a task without a number is a start that tells none. -/
theorem exists_of_isUnnumbered {e : Event} (h : isUnnumbered e = true) :
    ∃ facts, e = .taskStart facts ∧ facts.compileId = none := by
  cases e with
  | taskStart facts => exact ⟨facts, rfl, Option.isNone_iff_eq_none.mp h⟩
  | _ => cases h

/-- A task that begins without a number begins under the one that stands for none. -/
theorem beginsUnder?_of_isUnnumbered {e : Event} (h : isUnnumbered e = true) :
    startNumber? e = none ∧ beginsUnder? e = some noId := by
  obtain ⟨facts, rfl, hnone⟩ := exists_of_isUnnumbered h
  refine ⟨hnone, ?_⟩
  show some (facts.compileId.getD noId) = some noId
  rw [hnone, Option.getD_none]

/-- Any other task begins under the number that its start tells. -/
theorem beginsUnder?_of_not_isUnnumbered {e : Event} (h : ¬ isUnnumbered e = true) :
    beginsUnder? e = startNumber? e := by
  cases e with
  | taskStart facts =>
    obtain ⟨id, hid⟩ := Option.ne_none_iff_exists'.mp fun hnone =>
      h (Option.isNone_iff_eq_none.mpr hnone)
    show some (facts.compileId.getD noId) = facts.compileId
    rw [hid, Option.getD_some]
  | _ => rfl

/-- A task that begins without a number is mentioned under the one that stands for none. -/
theorem mention?_of_isUnnumbered {e : Event} (h : isUnnumbered e = true) :
    ∃ facts, mention? noId e = some (.begun facts) := by
  obtain ⟨facts, rfl, hnone⟩ := exists_of_isUnnumbered h
  have hunder : facts.compileId.getD noId = noId := by rw [hnone, Option.getD_none]
  exact ⟨facts, if_pos hunder⟩

/-- Nothing else is mentioned under the number that stands for none, unless this one is told. -/
theorem mention?_of_not_isUnnumbered {e : Event} (h : ¬ isUnnumbered e = true)
    (htold : openedNumber? e ≠ some noId) : mention? noId e = none := by
  cases e with
  | taskStart facts =>
    refine if_neg fun heq => ?_
    have hsame : some (facts.compileId.getD noId) = facts.compileId :=
      beginsUnder?_of_not_isUnnumbered h
    exact htold (hsame.symm.trans (congrArg some heq))
  | taskQueued facts => exact if_neg htold
  | nmethod facts => exact if_neg htold
  | _ => rfl

/-- Where the number that stands for none is not told, its mentions are the tasks that begin without
a number. -/
theorem mentionsOf_noId {events : List LogEvent}
    (h : ∀ e ∈ events, openedNumber? e.event ≠ some noId) :
    (mentionsOf noId events).length = events.countP (fun e => isUnnumbered e.event) ∧
      ∀ m ∈ mentionsOf noId events, m.start?.isSome = true := by
  induction events with
  | nil => exact ⟨rfl, fun m hm => nomatch hm⟩
  | cons e rest ih =>
    obtain ⟨hlength, hstarts⟩ := ih fun e' he' => h e' (List.mem_cons_of_mem e he')
    unfold mentionsOf at hlength hstarts ⊢
    by_cases he : isUnnumbered e.event = true
    · obtain ⟨facts, hfacts⟩ := mention?_of_isUnnumbered he
      have hcons := List.filterMap_cons_some (f := fun e : LogEvent => mention? noId e.event)
        (l := rest) hfacts
      rw [hcons, List.countP_cons, if_pos he, List.length_cons, hlength]
      refine ⟨rfl, fun m hm => ?_⟩
      rcases List.mem_cons.mp hm with rfl | hm
      · rfl
      · exact hstarts m hm
    · have hnone := mention?_of_not_isUnnumbered he (h e List.mem_cons_self)
      have hcons := List.filterMap_cons_none (f := fun e : LogEvent => mention? noId e.event)
        (l := rest) hnone
      rw [hcons, List.countP_cons, if_neg he]
      exact ⟨hlength, hstarts⟩

/-- Starts are causes of their own. By induction from the last one on. -/
theorem causes_of_starts {ms : List Mention} (h : ∀ m ∈ ms, m.start?.isSome = true) :
    (causes ms).length = ms.length ∧ ∀ cause ∈ causes ms, cause.isSettled = true := by
  induction ms using List.reverseRecOn with
  | nil => exact ⟨rfl, fun cause hcause => nomatch hcause⟩
  | append_singleton ms m ih =>
    obtain ⟨hlength, hsettled⟩ := ih fun m' hm' => h m' (List.mem_append_left _ hm')
    obtain ⟨facts, hfacts⟩ :=
      Option.isSome_iff_exists.mp (h m (List.mem_append_right _ List.mem_cons_self))
    rw [causes_concat, addMention_of_start? hsettled hfacts]
    refine ⟨?_, settled_concat hsettled facts []⟩
    rw [List.length_append, List.length_append, hlength]
    rfl

/-- A task that begins is under way. -/
theorem active_accept_start {c : Collector} (hwaiting : c.WaitingUnparsed) {e : LogEvent}
    {facts : TaskFacts} (he : e.event = .taskStart facts) :
    ((c.accept e).1.holding (facts.compileId.getD noId)).active.isSome = true := by
  have hflushed : (c.flushBefore e.event).1.WaitingUnparsed := by
    unfold flushBefore
    split
    · exact hwaiting
    · exact hwaiting.flush
  unfold accept
  simp only
  generalize (c.flushBefore e.event).1 = flushed at hflushed
  rw [he]
  unfold take startTask
  simp only
  generalize hcut : (flushed.count _).abandonActive.1 = cut
  have hcut' : cut.WaitingUnparsed := by
    rw [← hcut]
    exact WaitingUnparsed.abandonActive hflushed
  generalize hcounted : (if facts.compileId.isNone = true then cut.countStray else cut) = counted
  have hcounted' : counted.WaitingUnparsed := by
    subst hcounted
    split <;> exact hcut'
  have hid := (hcounted'.takeWaiting (facts.compileId.getD noId)).2.compileId_eq
  have hbegun := Task.SameCourse.beginTask facts
    (counted.takeWaiting (facts.compileId.getD noId)).1.thread (unread_unreadFlags e)
    (counted.takeWaiting (facts.compileId.getD noId)).2
  rw [holding_activate_self _ (hbegun.compileId_eq.trans hid)]
  rfl

/-- Where a task begins without a number, one was handed over under the number that stands for none
if one began so before. -/
theorem handedOver_noId_iff (retain : Bool) {events : List LogEvent} {e : LogEvent}
    (h : ∀ e' ∈ events ++ [e], openedNumber? e'.event ≠ some noId)
    (he : isUnnumbered e.event = true) :
    (∃ t ∈ tasksOf ((start retain).acceptAll (events ++ [e])).2, t.compileId = noId) ↔
      0 < events.countP fun e => isUnnumbered e.event := by
  obtain ⟨hmentions, hstarts⟩ := mentionsOf_noId h
  obtain ⟨hcauses, -⟩ := causes_of_starts hstarts
  have hcount : (causes (mentionsOf noId (events ++ [e]))).length =
      (events.countP fun e => isUnnumbered e.event) + 1 := by
    rw [hcauses, hmentions, List.countP_append, List.countP_singleton, if_pos he]
  have hactive : (((start retain).acceptAll (events ++ [e])).1.holding noId).active.isSome =
      true := by
    obtain ⟨facts, hevent, hnone⟩ := exists_of_isUnnumbered he
    have hunderway := active_accept_start (waitingUnparsed_acceptAll retain events) hevent
    rw [hnone] at hunderway
    rw [acceptAll_concat]
    exact hunderway
  have hstanding := standing_acceptAll retain (events ++ [e]) noId
  generalize ((start retain).acceptAll (events ++ [e])).1.holding noId = held at hactive hstanding
  generalize causes (mentionsOf noId (events ++ [e])) = cs at hcount hstanding
  have hmem : (∃ t ∈ tasksOf ((start retain).acceptAll (events ++ [e])).2, t.compileId = noId) ↔
      0 < (tasksWith noId ((start retain).acceptAll (events ++ [e])).2).length := by
    unfold tasksWith
    rw [List.length_pos_iff_exists_mem]
    simp only [List.mem_filter, decide_eq_true_eq]
  rw [hmem]
  generalize tasksWith noId ((start retain).acceptAll (events ++ [e])).2 = ts at hstanding
  cases hstanding with
  | idle hsettled hyields => cases hactive
  | waiting ht => cases hactive
  | underway hsettled hyields ht =>
    rw [List.length_append] at hcount
    rw [← hyields.length_eq, Nat.add_right_cancel hcount]

/-- Of the tasks that begin without a number, each but the first counts as a repetition, and
otherwise those count that begin under a number that they tell. By induction on the events from the
last one on. -/
theorem countP_startsAgain (retain : Bool) {events : List LogEvent}
    (h : ∀ e ∈ events, openedNumber? e.event ≠ some noId) :
    events.inits.countP (startsAgain retain beginsUnder?) =
      events.inits.countP (startsAgain retain startNumber?) +
        ((events.countP fun e => isUnnumbered e.event) - 1) := by
  induction events using List.reverseRecOn with
  | nil => rfl
  | append_singleton events e ih =>
    have hbefore := ih fun e' he' => h e' (List.mem_append_left _ he')
    rw [countP_inits_concat, countP_inits_concat, List.countP_append, List.countP_singleton,
      hbefore]
    unfold startsAgain
    rw [List.getLast?_concat]
    simp only
    by_cases he : isUnnumbered e.event = true
    · have hnone := beginsUnder?_of_isUnnumbered he
      have hagain : (tasksOf ((start retain).acceptAll (events ++ [e])).2).any
          (fun t => t.compileId = noId) =
            decide (0 < events.countP fun e => isUnnumbered e.event) := by
        rw [Bool.eq_iff_iff, List.any_eq_true]
        simp only [decide_eq_true_eq]
        exact handedOver_noId_iff retain h he
      rw [hnone.1, hnone.2, if_pos he, Option.any_some, hagain, Option.any_none]
      by_cases hzero : 0 < events.countP fun e => isUnnumbered e.event
      · rw [decide_eq_true hzero, Bool.toNat_true, Bool.toNat_false]
        omega
      · rw [decide_eq_false hzero, Bool.toNat_false]
        omega
    · have hsame := beginsUnder?_of_not_isUnnumbered he
      rw [hsame, if_neg he]
      omega

/-! ### Whole logs -/

/-- A log has as many repetitions counted as tasks begin under a number of which a task has been
handed over, and as many tasks flagged. A task without a number begins under the one that stands for
none. So where this one is not told, those are counted that begin under a number that they tell, and
of the tasks without a number each but the first. -/
theorem repeats_counted_and_flagged (retain : Bool) (events : List LogEvent) :
    (collect retain events).1.counts.duplicateStarts =
        events.inits.countP (startsAgain retain beginsUnder?) ∧
      (tasksOf (collect retain events).2).countP Task.isRepeat =
        (collect retain events).1.counts.duplicateStarts ∧
      ((∀ e ∈ events, openedNumber? e.event ≠ some noId) →
        (collect retain events).1.counts.duplicateStarts =
          events.inits.countP (startsAgain retain startNumber?) +
            ((events.countP fun e => isUnnumbered e.event) - 1)) := by
  have hall : Reckons (events.inits.countP (startsAgain retain beginsUnder?)) (start retain)
      (collect retain events) :=
    (reckons_acceptAll retain events).trans (reckons_finish (numbered_acceptAll retain events))
  have hcounted : (collect retain events).1.counts.duplicateStarts =
      events.inits.countP (startsAgain retain beginsUnder?) :=
    hall.counted.trans (Nat.zero_add _)
  have hidle : (collect retain events).1.repeats = 0 := by
    have hnone : (collect retain events).1.active = none := (finish_idle _).2
    unfold repeats
    rw [hnone]
    rfl
  have hflagged := hall.flagged
  rw [hidle, ← hcounted] at hflagged
  refine ⟨hcounted, ?_, fun h => hcounted.trans (countP_startsAgain retain h)⟩
  exact (Nat.zero_add _).symm.trans (hflagged.trans (Nat.zero_add _))

/-- Two tasks of which the log tells no number. -/
def twoUnnumbered : List LogEvent :=
  eventsOf .builtin (Text.Utf8.encode ("<task method='A a ()V'><task_done/></task>" ++
    "<task method='B b ()V'><task_done/></task>"))

/-- The second of two tasks without a number is counted. -/
theorem repeats_counted_and_flagged_twoUnnumbered :
    (∀ e ∈ twoUnnumbered, openedNumber? e.event ≠ some noId) ∧
      (collect false twoUnnumbered).1.counts.duplicateStarts =
        twoUnnumbered.inits.countP (startsAgain false startNumber?) +
          ((twoUnnumbered.countP fun e => isUnnumbered e.event) - 1) := by
  have htold : ∀ e ∈ twoUnnumbered, openedNumber? e.event ≠ some noId := by decide +kernel
  exact ⟨htold, (repeats_counted_and_flagged false twoUnnumbered).2.2 htold⟩

/-- Of two tasks without a number, of which neither tells a number that was used before, one is
counted as a repetition, and the second is flagged as one. -/
theorem second_unnumbered_task_flagged :
    twoUnnumbered.inits.countP (startsAgain false startNumber?) = 0 ∧
      (collect false twoUnnumbered).1.counts.duplicateStarts = 1 ∧
      (tasksOf (collect false twoUnnumbered).2).map Task.isRepeat = [false, true] := by
  decide +kernel

end Collector

end Collect

end CompileLog

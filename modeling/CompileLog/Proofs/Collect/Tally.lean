import CompileLog.Proofs.Collect.Handover

/-!
# Counting what is handed over

A collector counts the tasks that it hands over, the finished ones and the abandoned ones apart. It
counts where it hands over and nowhere else, so the counts of a log are the numbers of its tasks.
-/

namespace CompileLog.Collect

/-- The counts grow by the tasks handed over. -/
def Tallies (c : Collector) (r : Collector × List Item) : Prop :=
  r.1.counts.closed = c.counts.closed + (tasksOf r.2).countP (fun t => !t.isAbandoned) ∧
    r.1.counts.abandoned = c.counts.abandoned + (tasksOf r.2).countP Task.isAbandoned

namespace Tallies

variable {c c' : Collector} {items : List Item}

/-- Where no task is handed over, none is counted. -/
theorem of_tasksOf_eq_nil {r : Collector × List Item} (hitems : tasksOf r.2 = [])
    (hclosed : r.1.counts.closed = c.counts.closed)
    (habandoned : r.1.counts.abandoned = c.counts.abandoned) : Tallies c r := by
  unfold Tallies
  rw [hitems]
  exact ⟨hclosed, habandoned⟩

/-- Two operations one after the other. -/
theorem trans {r : Collector × List Item} (h : Tallies c (c', items)) (h' : Tallies c' r) :
    Tallies c (r.1, items ++ r.2) := by
  obtain ⟨hclosed, habandoned⟩ := h
  obtain ⟨hclosed', habandoned'⟩ := h'
  unfold Tallies
  simp only [tasksOf_append, List.countP_append]
  simp only at hclosed habandoned
  omega

end Tallies

namespace Collector

variable (c : Collector)

/-- A task is handed over. -/
theorem tallies_handOver (t : Task) : Tallies c (c.handOver t) := by
  unfold Tallies
  rw [tasksOf_handOver]
  have hstate : (flagMisplaced t).isAbandoned = t.isAbandoned := by
    unfold Task.isAbandoned
    rw [state_flagMisplaced]
  unfold handOver count Task.isAbandoned at *
  by_cases habandoned : t.state = .abandoned <;> simp [habandoned, hstate]

/-- What is counted step by step is counted in the end. -/
theorem tallies_each {α : Type} {f : Collector → α → Collector × List Item}
    (hf : ∀ c a, Tallies c (f c a)) (l : List α) : Tallies c (c.each f l) := by
  induction l generalizing c with
  | nil => exact .of_tasksOf_eq_nil rfl rfl rfl
  | cons a rest ih => exact (hf c a).trans (ih (f c a).1)

/-- Putting back a task counts nothing. -/
theorem counts_putTask (id : UInt64) (t : Task) : (c.putTask id t).counts = c.counts := by
  unfold putTask
  split <;> rfl

/-- Telling something of a task counts no task handed over. -/
theorem tallies_onTask (id : UInt64) (method : Option Method) (f : Task → Task) :
    Tallies c (c.onTask id method f, []) := by
  obtain ⟨t, _, heq⟩ | ⟨_, heq⟩ := c.onTask_cases id method f
  · rw [heq]
    exact .of_tasksOf_eq_nil rfl (by rw [counts_putTask]) (by rw [counts_putTask])
  · rw [heq]
    exact .of_tasksOf_eq_nil rfl rfl rfl

/-- A task is queued. -/
theorem tallies_queueTask (facts : TaskFacts) (flags : List TaskFlag) :
    Tallies c (c.queueTask facts flags, []) := by
  unfold queueTask
  split
  · exact .of_tasksOf_eq_nil rfl rfl rfl
  · split
    · exact .of_tasksOf_eq_nil rfl rfl rfl
    · exact c.tallies_onTask _ _ _

/-- The task under way is cut short. -/
theorem tallies_abandonActive : Tallies c c.abandonActive := by
  unfold abandonActive
  split
  · exact tallies_handOver { c with active := none } _
  · exact .of_tasksOf_eq_nil rfl rfl rfl

/-- A task begins. -/
theorem tallies_startTask (facts : TaskFacts) (flags : List TaskFlag) :
    Tallies c (c.startTask facts flags) := by
  have htaken : ∀ (c : Collector) (id : UInt64),
      (c.takeWaiting id).1.counts.closed = c.counts.closed ∧
        (c.takeWaiting id).1.counts.abandoned = c.counts.abandoned := by
    intro c id
    unfold takeWaiting
    split
    · exact ⟨rfl, rfl⟩
    · simp only
      split <;> exact ⟨rfl, rfl⟩
  unfold startTask
  simp only
  generalize hcounted : (if facts.compileId.isNone = true then c.abandonActive.1.countStray
    else c.abandonActive.1) = counted
  have hsame : counted.counts.closed = c.abandonActive.1.counts.closed ∧
      counted.counts.abandoned = c.abandonActive.1.counts.abandoned := by
    subst hcounted
    split <;> exact ⟨rfl, rfl⟩
  obtain ⟨hclosed, habandoned⟩ := htaken counted (facts.compileId.getD noId)
  have hbegun : Tallies c.abandonActive.1
      ({ (counted.takeWaiting (facts.compileId.getD noId)).1 with
        active := some (.start (beginTask facts
          (counted.takeWaiting (facts.compileId.getD noId)).1.thread flags
          (counted.takeWaiting (facts.compileId.getD noId)).2)) }, []) :=
    .of_tasksOf_eq_nil rfl (hclosed.trans hsame.1) (habandoned.trans hsame.2)
  have hboth := c.tallies_abandonActive.trans hbegun
  rw [List.append_nil] at hboth
  exact hboth

/-- A task is finished. -/
theorem tallies_finishTask (success : Option Bool) (nativeSize inlinedBytes : Option UInt64)
    (stamp : Option Stamp) (flags : List TaskFlag) :
    Tallies c (c.finishTask success nativeSize inlinedBytes stamp flags) := by
  unfold finishTask
  split
  · exact .of_tasksOf_eq_nil rfl rfl rfl
  · -- A sample of the code cache may come before the task.
    have hsample : ∀ items, tasksOf items = [] → Tallies c ({ c with active := none }, items) :=
      fun _ hitems => .of_tasksOf_eq_nil hitems rfl rfl
    refine .trans (hsample _ ?_) (tallies_handOver _ _)
    split <;> rfl

/-- Code is installed. -/
theorem tallies_installCode (facts : NativeFacts) (flags : List TaskFlag) :
    Tallies c (c.installCode facts flags) := by
  obtain heq | ⟨id, addresses, ⟨_, heq⟩ | ⟨_, _, heq⟩ | ⟨_, heq⟩⟩ := c.installCode_cases facts flags
  all_goals rw [heq]
  · exact .of_tasksOf_eq_nil rfl rfl rfl
  · exact .of_tasksOf_eq_nil rfl rfl rfl
  · exact tallies_handOver { c with addresses } _
  · exact tallies_onTask { c with addresses } _ _ _

/-- A listing is placed. -/
theorem tallies_placeListing (l : Listing) : Tallies c (c.placeListing l) := by
  refine .of_tasksOf_eq_nil (c.tasksOf_placeListing l) ?_ ?_
  all_goals
    unfold placeListing
    split
    · rfl
    · split
      · rw [counts_putTask]
      · rfl

/-- The printed machine code is read. -/
theorem tallies_flush : Tallies c c.flush :=
  tallies_each { c with printed := "" } (fun c l => c.tallies_placeListing l) (listingsOf c.printed)

/-- Something is said about the task under way. -/
theorem tallies_takeInTask (shape : Shape) (e : Event) (flags : List TaskFlag) :
    Tallies c (c.takeInTask shape e flags, []) := by
  unfold takeInTask
  split
  · exact .of_tasksOf_eq_nil rfl rfl rfl
  · split <;> exact .of_tasksOf_eq_nil rfl rfl rfl

/-- A frame is told. -/
theorem tallies_takeFrame (bci : Option UInt32) (method : Option Method)
    (methodId : Option UInt64) : Tallies c (c.takeFrame bci method methodId, []) := by
  unfold takeFrame
  split
  · split <;> exact .of_tasksOf_eq_nil rfl rfl rfl
  · exact .of_tasksOf_eq_nil rfl rfl rfl

/-- Whatever an event says, the tasks that it hands over are counted. -/
theorem tallies_take (shape : Shape) (flags : List TaskFlag) (e : Event) :
    Tallies c (c.take shape flags e) := by
  have hdoes := c.does_take shape flags e
  generalize c.take shape flags e = taken at hdoes
  cases hdoes with
  | queues facts => exact c.tallies_queueTask facts flags
  | starts facts => exact c.tallies_startTask facts flags
  | finishes success nativeSize inlinedBytes stamp => exact c.tallies_finishTask _ _ _ _ flags
  | installs facts => exact c.tallies_installCode facts flags
  | cutsShort he thread => exact c.tallies_abandonActive
  | flushes he => exact c.tallies_flush
  | tells he => exact c.tallies_takeInTask _ _ _
  | frames bci method methodId => exact c.tallies_takeFrame _ _ _
  | passes he hsame hitems => exact .of_tasksOf_eq_nil hitems hsame.closed_eq hsame.abandoned_eq

/-- Whatever the next event says, the tasks that it hands over are counted. -/
theorem tallies_accept (e : LogEvent) : Tallies c (c.accept e) := by
  have hflushed : Tallies c (c.flushBefore e.event) := by
    unfold flushBefore
    split
    · exact .of_tasksOf_eq_nil rfl rfl rfl
    · exact c.tallies_flush
  have htaken := tallies_take ((c.flushBefore e.event).1.count fun n =>
    { n with unreadAttributes := n.unreadAttributes + e.unread.length }) e.shape (unreadFlags e)
    e.event
  exact hflushed.trans htaken

/-- What is still open where a log ends is counted. -/
theorem tallies_finish : Tallies c c.finish := by
  have hreleased : Tallies c.flush.1 c.flush.1.releaseTrap := by
    unfold releaseTrap
    split <;> exact .of_tasksOf_eq_nil rfl rfl rfl
  have hended := tallies_each { c.flush.1.releaseTrap.1.abandonActive.1 with waiting := ∅ }
    (fun c t => c.tallies_handOver (cutShort t))
    (c.flush.1.releaseTrap.1.abandonActive.1.waiting.entries.map Prod.snd)
  exact ((c.tallies_flush.trans hreleased).trans (tallies_abandonActive _)).trans hended

/-- The counts of a log are the numbers of the tasks that it hands over. -/
theorem tally_collect (retain : Bool) (events : List LogEvent) :
    (collect retain events).1.counts.closed =
        (tasksOf (collect retain events).2).countP (fun t => !t.isAbandoned) ∧
      (collect retain events).1.counts.abandoned =
        (tasksOf (collect retain events).2).countP Task.isAbandoned := by
  have hread := tallies_each (start retain) (fun c e => c.tallies_accept e) events
  have hall := hread.trans (tallies_finish _)
  obtain ⟨hclosed, habandoned⟩ := hall
  have hzero : (start retain).counts = .zero := rfl
  rw [hzero] at hclosed habandoned
  exact ⟨hclosed.trans (Nat.zero_add _), habandoned.trans (Nat.zero_add _)⟩

end Collector

end CompileLog.Collect

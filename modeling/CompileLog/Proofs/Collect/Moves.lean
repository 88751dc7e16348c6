import CompileLog.Proofs.Collect.Accounts
import CompileLog.Proofs.Collect.Desk

/-!
# A collector makes moves

Each operation of a collector is a run of moves on its desk, so whatever a collector is given, the
next event of a log or its end, in whatever order, is one. A finished task leaves its desk, a task
that was met is put there to wait, and the task that begins is taken from there or is new.
-/

namespace CompileLog.Collect

/-- The desk of a collector. -/
def Collector.desk (c : Collector) (heard : Option (List Event)) : Desk :=
  ⟨c.active.map Compiling.task, c.waiting, c.handedOver, heard⟩

namespace Collector

variable (c : Collector) (heard : Option (List Event))

/-- The task under way is the one that a collector has. -/
theorem active_desk {c : Collector} {active : Option Compiling} (h : c.active = active)
    (heard : Option (List Event)) : (c.desk heard).active = active.map Compiling.task := by
  unfold desk
  rw [h]

/-- What is handed over that is neither a task nor late code passes. -/
theorem moves_pass {d : Desk} {i : Item} (htask : tasksOf [i] = [])
    (hlate : ∀ id native, .lateNative id native ≠ i) : Moves d [i] d :=
  .one (.passes htask fun id native hmem => absurd (List.mem_singleton.mp hmem) (hlate id native))

/-- Where no task has a number, none with it is under way and none waits. -/
theorem openTask?_eq_none {c : Collector} {id : UInt64} (h : c.openTask? id = none) :
    ¬ (c.desk heard).IsActive id ∧ c.waiting.get? id = none := by
  obtain ⟨hactive, hwaiting⟩ := Option.or_eq_none_iff.mp h
  refine ⟨?_, hwaiting⟩
  rintro ⟨t, ht, hid⟩
  obtain ⟨a, ha, rfl⟩ := Option.map_eq_some_iff.mp ht
  rw [Option.map_eq_none_iff, activeWith?_of_active ha, if_pos hid] at hactive
  cases hactive

/-- More is told of a task that is not handed over. -/
theorem moves_putTask {c : Collector} {id : UInt64} {t t' : Task}
    (hopen : c.openTask? id = some t) (hsame : t.SameCourse t') :
    Moves (c.desk heard) [] ((c.putTask id t').desk heard) := by
  obtain ⟨a, hunderway, rfl, _, heq⟩ | ⟨_, hwaits, heq⟩ := putTask_cases hopen t'
  · rw [heq]
    exact .one (.tells (active_desk hunderway heard) hsame)
  · rw [heq]
    exact .one (.foretells hwaits hsame)

/-- More is told of a task that was not handed over, which may not have been met. -/
theorem moves_onTask {id : UInt64} (hhanded : c.isHandedOver id = false)
    (method : Option Method) {f : Task → Task} (hf : Told f) :
    Moves (c.desk heard) [] ((c.onTask id method f).desk heard) := by
  obtain ⟨t, hopen, heq⟩ | ⟨hopen, heq⟩ := c.onTask_cases id method f
  · rw [heq]
    exact moves_putTask heard hopen (.told hf t)
  · obtain ⟨hactive, hwaiting⟩ := openTask?_eq_none heard hopen
    have hsame := Task.SameCourse.told hf (implicitTask id method)
    have hid : (f (implicitTask id method)).compileId = id := hsame.compileId_eq
    have hmeets := Move.meets (d := c.desk heard) (t := f (implicitTask id method))
      (hid.symm ▸ hactive) (hid.symm ▸ hhanded) hsame.outcome_eq
      (fun hmem => by
        have := (hsame.mark_iff _ rfl).mp hmem
        simp [implicitTask] at this)
    rw [hid] at hmeets
    rw [heq]
    exact .one hmeets

/-- A task is queued. -/
theorem moves_queueTask (facts : TaskFacts) {flags : List TaskFlag} (hflags : Unread flags) :
    Moves (c.desk heard) [] ((c.queueTask facts flags).desk heard) := by
  unfold queueTask
  split
  · exact .stay
  · split
    · exact .stay
    · next hhanded =>
      exact c.moves_onTask heard (Bool.eq_false_iff.mpr hhanded) _ (.queued facts hflags)

/-- A task is handed over with its call sites checked. -/
theorem desk_handOver (t : Task) :
    (c.handOver t).1.desk heard = (c.desk heard).handOver (flagMisplaced t) := by
  unfold Desk.handOver
  rw [(Task.SameCourse.flagMisplaced t).compileId_eq]
  rfl

/-- Code is installed. -/
theorem moves_installCode (facts : NativeFacts) {flags : List TaskFlag} (hflags : Unread flags) :
    Moves (c.desk heard) (c.installCode facts flags).2
      ((c.installCode facts flags).1.desk heard) := by
  obtain heq | ⟨id, addresses, ⟨hhanded, heq⟩ | ⟨hhanded, hopen, heq⟩ | ⟨hhanded, heq⟩⟩ :=
    c.installCode_cases facts flags
  all_goals rw [heq]
  · exact .stay
  · refine .one (.passes rfl fun id' native hmem => ?_)
    obtain ⟨rfl, -⟩ := Item.lateNative.inj (List.mem_singleton.mp hmem)
    exact hhanded
  · obtain ⟨hactive, hwaiting⟩ := openTask?_eq_none heard hopen
    obtain ⟨hnumber, _, hmarks⟩ := wrapperTask_course id facts hflags
    rw [desk_handOver]
    refine .one (.bridges ?_ ?_ ?_ (hmarks _ rfl)) <;> rw [hnumber]
    · exact hactive
    · exact hwaiting
    · exact hhanded
  · exact moves_onTask { c with addresses } heard hhanded _ (.installed facts hflags)

/-- A listing is placed. -/
theorem moves_placeListing (l : Listing) :
    Moves (c.desk heard) (c.placeListing l).2 ((c.placeListing l).1.desk heard) := by
  unfold placeListing
  split
  · exact moves_pass rfl fun _ _ => Item.noConfusion
  · split
    · next hopen => exact moves_putTask heard hopen (.addListing _ l _)
    · exact moves_pass rfl fun _ _ => Item.noConfusion

/-- One operation after the other, as many as there are. By induction on what they are given. -/
theorem moves_each {α : Type} {f : Collector → α → Collector × List Item}
    (attend : Option (List Event) → α → Option (List Event)) (c : Collector)
    (heard : Option (List Event)) (hf : ∀ (c : Collector) heard a,
      Moves (c.desk heard) (f c a).2 ((f c a).1.desk (attend heard a))) (l : List α) :
    Moves (c.desk heard) (c.each f l).2 ((c.each f l).1.desk (l.foldl attend heard)) := by
  induction l generalizing c heard with
  | nil => exact .stay
  | cons a rest ih => exact (hf c heard a).trans (ih (f c a).1 (attend heard a))

/-- The printed machine code is read. -/
theorem moves_flush : Moves (c.desk heard) c.flush.2 (c.flush.1.desk heard) := by
  have hflushed := moves_each (fun told _ => told) { c with printed := "" } heard
    (fun c heard l => c.moves_placeListing heard l) (listingsOf c.printed)
  rw [List.foldl_fixed] at hflushed
  exact hflushed

/-- The task under way is cut short. -/
theorem moves_abandonActive :
    Moves (c.desk heard) c.abandonActive.2 (c.abandonActive.1.desk none) := by
  unfold abandonActive
  cases hactive : c.active with
  | none =>
    have hdesk : c.desk none = { c.desk heard with heard := none } := rfl
    rw [hdesk]
    exact .one (.idles (active_desk hactive heard))
  | some a =>
    rw [desk_handOver]
    exact .one (.leaves (active_desk hactive heard) (.cutShort a.task))

/-- A task begins where none is under way. -/
theorem moves_begin {c : Collector} (hidle : c.active = none) (id : UInt64) (facts : TaskFacts)
    (thread : Option String) {flags : List TaskFlag} (hflags : Unread flags) :
    Moves (c.desk heard) [] (({ (c.takeWaiting id).1 with
      active := some (.start (beginTask facts thread flags (c.takeWaiting id).2)) }).desk
        (some [])) := by
  have hbegun := Task.SameCourse.beginTask facts thread hflags
  have hdesk : (c.desk heard).active = none := active_desk hidle heard
  -- A task that does not wait is new, or its number was used before.
  have hopens : ∀ t : Task, c.waiting.get? id = none → t.compileId = id → t.outcome = .pending →
      (.duplicateCompileId ∈ t.flags ↔ c.isHandedOver id = true) →
      Moves (c.desk heard) []
        (desk { c with active := some (.start (beginTask facts thread flags t)) } (some [])) := by
    intro t hwaiting hid houtcome hagain
    have hnumber : (beginTask facts thread flags t).compileId = id :=
      (hbegun t).compileId_eq.trans hid
    have hnew : (.duplicateCompileId ∈ (beginTask facts thread flags t).flags ↔
        (c.desk heard).isHandedOver (beginTask facts thread flags t).compileId = true) := by
      rw [hnumber]
      exact ((hbegun t).mark_iff _ rfl).trans hagain
    exact .one (.opens hdesk (hnumber.symm ▸ hwaiting)
      ((hbegun t).outcome_eq.trans houtcome) hnew)
  unfold takeWaiting
  split
  · next t hwaiting =>
    refine .one (.begins hdesk hwaiting ?_ (hbegun _).outcome_eq)
    have hsame := (hbegun { t with
      flags := t.flags.filter fun f => f ≠ .implicitlyOpened }).sameNumber
    refine ⟨hsame.compileId_eq, hsame.duplicate_iff.trans ?_⟩
    simp
  · next hwaiting =>
    simp only
    split
    · next hhanded =>
      rw [Task.flag_new]
      exact hopens _ hwaiting rfl rfl (iff_of_true List.mem_cons_self hhanded)
    · next hhanded =>
      exact hopens _ hwaiting rfl rfl (iff_of_false List.not_mem_nil hhanded)

/-- A task begins; one that is under way is cut short. -/
theorem moves_startTask (facts : TaskFacts) {flags : List TaskFlag} (hflags : Unread flags) :
    Moves (c.desk heard) (c.startTask facts flags).2
      ((c.startTask facts flags).1.desk (some [])) := by
  unfold startTask
  simp only
  generalize hcounted : (if facts.compileId.isNone = true then c.abandonActive.1.countStray
    else c.abandonActive.1) = counted
  have hsame : counted.active = none ∧ counted.desk none = c.abandonActive.1.desk none := by
    subst hcounted
    split <;> exact ⟨c.active_abandonActive, rfl⟩
  obtain ⟨hidle, hdesk⟩ := hsame
  have hbegin := moves_begin none hidle (facts.compileId.getD noId) facts
    (counted.takeWaiting (facts.compileId.getD noId)).1.thread hflags
  rw [hdesk] at hbegin
  have hboth := (c.moves_abandonActive heard).trans hbegin
  rw [List.append_nil] at hboth
  exact hboth

/-- The task under way is finished. -/
theorem moves_finishTask (success : Option Bool) (nativeSize inlinedBytes : Option UInt64)
    (stamp : Option Stamp) {flags : List TaskFlag} (hflags : Unread flags) :
    Moves (c.desk heard) (c.finishTask success nativeSize inlinedBytes stamp flags).2
      ((c.finishTask success nativeSize inlinedBytes stamp flags).1.desk none) := by
  unfold finishTask
  cases hactive : c.active with
  | none =>
    exact .one (.idles (active_desk hactive heard))
  | some a =>
    obtain ⟨hmarks, _⟩ :=
      a.finished_course success nativeSize inlinedBytes stamp hflags
    have hsame := hmarks.trans (Task.SameCourse.flagMisplaced _).toSameMarks
    have hleaves : Moves (c.desk heard)
        ({ c with active := none }.handOver
          (a.finished success nativeSize inlinedBytes stamp flags)).2
        (({ c with active := none }.handOver
          (a.finished success nativeSize inlinedBytes stamp flags)).1.desk none) := by
      rw [desk_handOver]
      exact .one (.leaves (active_desk hactive heard) hsame.sameNumber)
    have hsample : ∀ sample : CodeCacheSample, Moves (c.desk heard)
        (if a.freeCodeCache.isSome then [.codeCache sample] else []) (c.desk heard) := by
      intro sample
      split
      · exact moves_pass rfl fun _ _ => Item.noConfusion
      · exact .stay
    exact (hsample _).trans hleaves

/-- Something is said about the task under way. -/
theorem moves_takeInTask (shape : Shape) (e : Event) {flags : List TaskFlag}
    (hflags : Unread flags) :
    Moves (c.desk heard) []
      ((c.takeInTask shape e flags).desk (heard.map (· ++ [e]))) := by
  unfold takeInTask
  cases hactive : c.active with
  | none =>
    have hmissed : Moves (c.desk heard) [] (c.desk (heard.map (· ++ [e]))) :=
      .one (.hears (.inl (active_desk hactive heard)))
    simp only
    split <;> exact hmissed
  | some a =>
    have hdesk : (c.desk heard).active = some a.task := active_desk hactive heard
    have hnoted := Task.SameCourse.withUnread hflags a.task
    cases he : e.isFailure with
    | true =>
      cases e with
      | failure reason stamp =>
        obtain ⟨hmarks, houtcome⟩ :=
          Compiling.take_failure { a with task := withFlags flags a.task } shape reason stamp
        exact .one (.fails hdesk (hnoted.toSameMarks.trans hmarks) houtcome)
      | _ => cases he
    | false =>
      have htaken := hnoted.trans
        (Compiling.sameCourse_take { a with task := withFlags flags a.task } shape he)
      exact (Moves.one (.tells hdesk htaken)).trans (.one (.hears (.inr he)))

/-- A frame is told. It is part of what was told before, of a trap or of a removed operation. -/
theorem moves_takeFrame (bci : Option UInt32) (method : Option Method)
    (methodId : Option UInt64) :
    Moves (c.desk heard) []
      ((c.takeFrame bci method methodId).desk (heard.map (· ++ [.jvms bci method methodId]))) := by
  have hheard : Moves (c.desk heard) [] (c.desk (heard.map (· ++ [.jvms bci method methodId]))) :=
    .one (.hears (.inr rfl))
  unfold takeFrame
  split
  · split <;> exact hheard
  · have hdesk : ∀ told, desk { c with
        active := c.active.map fun a => a.addFrame bci method methodId } told = c.desk told := by
      intro told
      unfold desk
      rw [Option.map_map]
      rfl
    rw [hdesk]
    exact hheard

end Collector

/-! ### What an event does -/

/-- What was heard of the task under way once an event came. -/
def hear (heard : Option (List Event)) : Event → Option (List Event)
  | .taskStart _ => some []
  | .taskDone .. | .close .taskStart | .close .threadLog => none
  | e => heard.map (· ++ [e])

namespace Collector

variable (c : Collector) (heard : Option (List Event))

/-- What moves a desk without hearing does so when an event is heard that is no failure. -/
theorem moves_hearing {c : Collector} {r : Collector × List Item} {e : Event}
    (h : ∀ heard, Moves (c.desk heard) r.2 (r.1.desk heard)) (he : e.isFailure = false) :
    Moves (c.desk heard) r.2 (r.1.desk (heard.map (· ++ [e]))) :=
  (Moves.one (.hears (.inr he))).trans (h _)

/-- A deoptimization passes. -/
theorem moves_deopt {d : Desk} (deopt : Deopt) : Moves d [.deopt deopt] d :=
  moves_pass rfl fun _ _ => Item.noConfusion

/-- Whatever an event says is a run of moves. -/
theorem moves_take (shape : Shape) {flags : List TaskFlag} (hflags : Unread flags) (e : Event) :
    Moves (c.desk heard) (c.take shape flags e).2
      ((c.take shape flags e).1.desk (hear heard e)) := by
  have htold := fun e => c.moves_takeInTask heard shape e hflags
  cases e with
  | taskQueued facts => exact moves_hearing heard (fun h => c.moves_queueTask h facts hflags) rfl
  | taskStart facts => exact c.moves_startTask heard facts hflags
  | taskDone success nativeSize inlinedBytes stamp =>
    exact c.moves_finishTask heard success nativeSize inlinedBytes stamp hflags
  | nmethod facts => exact moves_hearing heard (fun h => c.moves_installCode h facts hflags) rfl
  | jvms bci method methodId => exact c.moves_takeFrame heard bci method methodId
  | close of =>
    cases of with
    | threadLog => exact c.moves_abandonActive heard
    | taskStart => exact c.moves_abandonActive heard
    | printNmethod => exact moves_hearing heard c.moves_flush rfl
    | uncommonTrap =>
      refine moves_hearing heard (fun h => ?_) rfl
      unfold take
      simp only
      split
      · exact moves_deopt _
      · exact .stay
    | _ => exact htold _
  | uncommonTrap id bci reason action stamp =>
    cases id with
    | none => exact htold _
    | some id =>
      refine moves_hearing heard (fun h => ?_) rfl
      show Moves _ (c.hitTrap shape _).2 ((c.hitTrap shape _).1.desk h)
      unfold hitTrap
      split
      · exact .stay
      · exact moves_deopt _
  | deoptimized id reason pc stamp =>
    cases id with
    | none => exact htold _
    | some id => exact moves_hearing heard (fun h => moves_deopt _) rfl
  | madeNotEntrant id compiler level stamp =>
    cases id with
    | none => exact htold _
    | some id => exact moves_hearing heard (fun h => moves_deopt _) rfl
  | unknown tag attributes closing =>
    cases closing <;> exact moves_hearing heard (fun h => .stay) rfl
  | logStart => exact moves_hearing heard (fun h => .stay) rfl
  | headerText => exact moves_hearing heard (fun h => .stay) rfl
  | compilerThread => exact moves_hearing heard (fun h => .stay) rfl
  | threadLog => exact moves_hearing heard (fun h => .stay) rfl
  | assemblyText => exact moves_hearing heard (fun h => .stay) rfl
  | _ => exact htold _

/-- Reading the printed machine code before an event is a run of moves. -/
theorem moves_flushBefore (e : Event) :
    Moves (c.desk heard) (c.flushBefore e).2 ((c.flushBefore e).1.desk heard) := by
  unfold flushBefore
  split
  · exact .stay
  · exact c.moves_flush heard

/-- Whatever the next event says is a run of moves. -/
theorem moves_accept (e : LogEvent) :
    Moves (c.desk heard) (c.accept e).2 ((c.accept e).1.desk (hear heard e.event)) :=
  (c.moves_flushBefore heard e.event).trans
    (moves_take ((c.flushBefore e.event).1.count fun n =>
      { n with unreadAttributes := n.unreadAttributes + e.unread.length }) heard e.shape
      (unread_unreadFlags e) e.event)

/-- The tasks that wait are handed over one by one. By induction on them: the first is handed over
and no longer waits. -/
theorem moves_forgetting {entries : List (UInt64 × Task)}
    (h : entries.Pairwise fun a b => a.1 < b.1) :
    Moves { c.desk heard with waiting := ⟨entries, h⟩ }
      (c.each (fun c t => c.handOver (cutShort t)) (entries.map Prod.snd)).2
      { (c.each (fun c t => c.handOver (cutShort t)) (entries.map Prod.snd)).1.desk heard with
        waiting := ∅ } := by
  induction entries generalizing c with
  | nil => exact .stay
  | cons e rest ih =>
    have hfound : (KeyMap.mk (e :: rest) h).get? e.1 = some e.2 :=
      KeyMap.get?_of_mem_entries List.mem_cons_self
    have hforgets := Moves.one (.forgets (d := { c.desk heard with waiting := ⟨e :: rest, h⟩ })
      hfound (.cutShort e.2))
    have hrest := ih (c.handOver (cutShort e.2)).1 (List.pairwise_cons.mp h).2
    rw [desk_handOver] at hrest
    simp only [KeyMap.erase_first] at hforgets
    exact hforgets.trans hrest

/-- The tasks that wait where a log ends are handed over. -/
theorem moves_abandonWaiting :
    Moves (c.desk heard) c.abandonWaiting.2 (c.abandonWaiting.1.desk heard) := by
  have hforgetting := moves_forgetting { c with waiting := ∅ } heard c.waiting.ordered
  obtain ⟨_, _, hwaiting⟩ :=
    each_handOver_cutShort { c with waiting := ∅ } (c.waiting.entries.map Prod.snd)
  have hdesk : { c.abandonWaiting.1.desk heard with waiting := ∅ } =
      c.abandonWaiting.1.desk heard := by
    have hnone : c.abandonWaiting.1.waiting = ∅ := hwaiting
    unfold desk
    rw [hnone]
  rw [← hdesk]
  exact hforgetting

/-- The end of a log is a run of moves. -/
theorem moves_finish : Moves (c.desk heard) c.finish.2 (c.finish.1.desk none) := by
  have hreleased : Moves (c.flush.1.desk heard) c.flush.1.releaseTrap.2
      (c.flush.1.releaseTrap.1.desk heard) := by
    unfold releaseTrap
    split
    · exact moves_deopt _
    · exact .stay
  exact (((c.moves_flush heard).trans hreleased).trans (moves_abandonActive _ heard)).trans
    (moves_abandonWaiting _ none)

end Collector

/-! ### All that a collector is given -/

/-- Something that a collector is given. -/
inductive Input where
  /-- The next event of a log. -/
  | event (e : LogEvent)
  /-- The end of a log, wherever it comes. -/
  | ending

/-- What was heard of the task under way once something was given. -/
def attend (heard : Option (List Event)) : Input → Option (List Event)
  | .event e => hear heard e.event
  | .ending => none

/-- What was heard of the task under way since it began, where one is. -/
def underway (inputs : List Input) : Option (List Event) := inputs.foldl attend none

namespace Collector

/-- Gives something to a collector. -/
def give (c : Collector) : Input → Collector × List Item
  | .event e => c.accept e
  | .ending => c.finish

/-- Gives one thing after another to a new collector. -/
def feed (retainListings : Bool) (inputs : List Input) : Collector × List Item :=
  (start retainListings).each give inputs

/-- Whatever a collector is given is a run of moves. -/
theorem moves_give (c : Collector) (heard : Option (List Event)) (input : Input) :
    Moves (c.desk heard) (c.give input).2 ((c.give input).1.desk (attend heard input)) := by
  cases input with
  | event e => exact c.moves_accept heard e
  | ending => exact c.moves_finish heard

/-- All that a new collector is given is a run of moves. -/
theorem moves_feed (retain : Bool) (inputs : List Input) :
    Moves ((start retain).desk none) (feed retain inputs).2
      ((feed retain inputs).1.desk (underway inputs)) :=
  moves_each attend (start retain) none moves_give inputs

/-- Giving events is taking them in. By induction on them. -/
theorem each_give_events (c : Collector) (events : List LogEvent) :
    c.each give (events.map .event) = c.acceptAll events := by
  unfold acceptAll
  induction events generalizing c with
  | nil => rfl
  | cons e rest ih =>
    have hrest := ih (c.accept e).1
    simp only [List.map_cons, each, give, hrest]

/-- A log gives its events and then its end. -/
theorem collect_eq_feed (retain : Bool) (events : List LogEvent) :
    collect retain events = feed retain (events.map .event ++ [.ending]) := by
  unfold feed collect
  rw [each_append, each_give_events]
  simp only [each, give, List.append_nil]

end Collector

end CompileLog.Collect

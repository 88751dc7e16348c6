import CompileLog.Proofs.Collect.Moves

/-!
# How tasks end

Every task that is handed over is finished or was cut short. A finished one succeeded or failed. One
that was cut short, and no other, is flagged as incomplete, and it did not succeed. One that is
flagged as met before its start never began, so it was cut short and no call site is known of it.

The outcome of a task that is finished goes back to what was heard of it since it began: it
succeeded if no failure was heard and its end does not tell one. A failure that came first stays,
whatever the end tells.
-/

namespace CompileLog

open Collect

/-- How a task that is handed over ended. -/
structure Task.Ended (t : Task) : Prop where
  /-- It was finished or cut short. -/
  state_eq : t.state = .closed ∨ t.state = .abandoned
  /-- If it was finished it succeeded or failed. -/
  outcome_eq : t.state = .closed → t.outcome = .succeeded ∨ ∃ reason, t.outcome = .failed reason
  /-- It is flagged as incomplete if it was cut short, and only then. -/
  incomplete_iff : t.state = .abandoned ↔ .incomplete ∈ t.flags
  /-- If it was cut short it did not succeed. -/
  not_succeeded : t.state = .abandoned → t.outcome ≠ .succeeded
  /-- If it never began it was cut short, and it has no call sites. -/
  implicit : .implicitlyOpened ∈ t.flags →
    t.state = .abandoned ∧ t.tree.topLevel = [] ∧ t.tree.nodes = #[]

namespace Collect

/-- A task that waits. -/
structure Unended (id : UInt64) (t : Task) : Prop where
  /-- No method body was told of it. -/
  unparsed : Unparsed id t
  /-- Its outcome is open. -/
  outcome_eq : t.outcome = .pending
  /-- It was not cut short. -/
  not_incomplete : .incomplete ∉ t.flags

/-- A task under way. -/
structure Unending (t : Task) : Prop where
  /-- It did not succeed yet. -/
  not_succeeded : t.outcome ≠ .succeeded
  /-- It was not cut short. -/
  not_incomplete : .incomplete ∉ t.flags
  /-- It began. -/
  not_implicit : .implicitlyOpened ∉ t.flags

namespace Collector

/-- A finished task succeeded unless its end tells a failure or one came first. -/
theorem finalOutcome_eq_succeeded_iff (success : Option Bool) (outcome : Outcome) :
    finalOutcome success outcome = .succeeded ↔
      success ≠ some false ∧ ∀ reason, outcome ≠ .failed reason := by
  unfold finalOutcome
  cases outcome with
  | failed reason => simp
  | _ => by_cases h : success = some false <;> simp [h]

/-- A finished task succeeded or failed. -/
theorem finalOutcome_cases (success : Option Bool) (outcome : Outcome) :
    finalOutcome success outcome = .succeeded ∨
      ∃ reason, finalOutcome success outcome = .failed reason := by
  cases h : finalOutcome success outcome with
  | succeeded => exact .inl rfl
  | failed reason => exact .inr ⟨reason, rfl⟩
  | pending =>
    unfold finalOutcome at h
    cases outcome <;> simp at h
    all_goals split at h <;> cases h

end Collector

/-- A task of whose course nothing changed is still under way. -/
theorem Unending.sameCourse {t t' : Task} (h : Unending t) (hsame : t.SameCourse t') :
    Unending t' := by
  refine ⟨?_, fun hmem => h.not_incomplete ((hsame.mark_iff _ rfl).mp hmem),
    fun hmem => h.not_implicit ((hsame.mark_iff _ rfl).mp hmem)⟩
  rw [hsame.outcome_eq]
  exact h.not_succeeded

/-- A task that is taken to begin is under way. -/
theorem Unending.of_taken {id : UInt64} {t : Task} (h : Taken Unended id t) : Unending t := by
  cases h with
  | @waiting t ht =>
    refine ⟨?_, fun hmem => ht.not_incomplete (List.mem_of_mem_filter hmem), by simp⟩
    show t.outcome ≠ .succeeded
    rw [ht.outcome_eq]
    exact Outcome.noConfusion
  | new => exact ⟨Outcome.noConfusion, List.not_mem_nil, List.not_mem_nil⟩
  | again =>
    rw [Task.flag_new]
    exact ⟨Outcome.noConfusion, by simp, by simp⟩

end Collect

/-- Checking the call sites and cutting a task short leaves the call sites as they are. -/
theorem Collect.Collector.tree_cutShort (t : Task) :
    (flagMisplaced (cutShort t)).tree = t.tree := by
  rw [flagMisplaced_eq_withFlags]
  obtain ⟨flags, heq, _⟩ := withFlags_eq (misplacedFlags (cutShort t)) (cutShort t)
  rw [heq]
  unfold cutShort
  obtain ⟨flags', heq', _⟩ := Task.flag_eq { t with state := .abandoned } .incomplete
  rw [heq']

namespace Task.Ended

variable {t : Task}

/-- A task that is cut short has ended. It was under way, or it waited and has no call sites. -/
theorem cutShort (houtcome : t.outcome ≠ .succeeded)
    (himplicit : .implicitlyOpened ∈ t.flags → t.tree.topLevel = [] ∧ t.tree.nodes = #[]) :
    (Collector.flagMisplaced (Collector.cutShort t)).Ended := by
  obtain ⟨_, hsame, hflags⟩ := Collector.cutShort_course t
  obtain ⟨hstate, hincomplete⟩ := Collector.cutShort_abandoned t
  have hcourse := SameCourse.flagMisplaced (Collector.cutShort t)
  have hended : (Collector.flagMisplaced (Collector.cutShort t)).state = .abandoned :=
    (Collector.state_flagMisplaced _).trans hstate
  refine ⟨.inr hended, fun hclosed => ?_, iff_of_true hended ?_, fun _ => ?_, fun hmem => ?_⟩
  · cases hended.symm.trans hclosed
  · exact (hcourse.mark_iff _ rfl).mpr hincomplete
  · rw [hcourse.outcome_eq, hsame]
    exact houtcome
  · rw [Collector.tree_cutShort]
    have hbefore := (hflags _).mp ((hcourse.mark_iff _ rfl).mp hmem)
    exact ⟨hended, himplicit (hbefore.resolve_right TaskFlag.noConfusion)⟩

/-- A task that began and was finished has ended. -/
theorem finished (hstate : t.state = .closed)
    (houtcome : t.outcome = .succeeded ∨ ∃ reason, t.outcome = .failed reason)
    (hcomplete : .incomplete ∉ t.flags) (hbegun : .implicitlyOpened ∉ t.flags) : t.Ended := by
  have hnever : t.state ≠ .abandoned := fun h => by cases hstate.symm.trans h
  exact ⟨.inl hstate, fun _ => houtcome, iff_of_false hnever hcomplete,
    fun h => absurd h hnever, fun h => absurd h hbegun⟩

end Task.Ended

namespace Collect

/-- More is told of a task that waits. -/
theorem Unended.told {id : UInt64} {t : Task} {f : Task → Task} (h : Unended id t)
    (hf : Told f) : Unended id (f t) := by
  have hsame := Task.SameCourse.told hf t
  exact ⟨Unparsed.custody.told_waiting hf h.unparsed, hsame.outcome_eq.trans h.outcome_eq,
    fun hmem => h.not_incomplete ((hsame.mark_iff _ rfl).mp hmem)⟩

/-- Whatever an event says about the task under way, it stays under way. -/
theorem Unending.heard {a : Compiling} (h : Unending a.task) {flags : List TaskFlag}
    (hflags : Unread flags) (shape : Shape) (e : Event) :
    Unending ({ a with task := Collector.withFlags flags a.task }.take shape e).task := by
  have hnoted := h.sameCourse (.withUnread hflags a.task)
  cases he : e.isFailure with
  | false =>
    exact hnoted.sameCourse
      (Compiling.sameCourse_take { a with task := Collector.withFlags flags a.task } shape he)
  | true =>
    cases e with
    | failure reason stamp =>
      obtain ⟨hmarks, houtcome⟩ := Compiling.take_failure
        { a with task := Collector.withFlags flags a.task } shape reason stamp
      refine ⟨?_, fun hmem => hnoted.not_incomplete ((hmarks.mark_iff _ rfl).mp hmem),
        fun hmem => hnoted.not_implicit ((hmarks.mark_iff _ rfl).mp hmem)⟩
      rw [houtcome]
      exact Outcome.noConfusion
    | _ => cases he

/-- The task under way is closed once it is finished. -/
theorem Compiling.state_finished (a : Compiling) (success : Option Bool)
    (nativeSize inlinedBytes : Option UInt64) (stamp : Option Stamp) {flags : List TaskFlag}
    (hflags : Unread flags) :
    (a.finished success nativeSize inlinedBytes stamp flags).state = .closed := by
  refine (a.becomes_finished success nativeSize inlinedBytes stamp fun hmem => ?_).2
  obtain ⟨_, _, _, hunread⟩ := hflags _ hmem
  cases hunread

/-- The task under way has ended once it is finished. -/
theorem Unending.finished {a : Compiling} (h : Unending a.task) {flags : List TaskFlag}
    (hflags : Unread flags) (success : Option Bool) (nativeSize inlinedBytes : Option UInt64)
    (stamp : Option Stamp) :
    (Collector.flagMisplaced
      (a.finished success nativeSize inlinedBytes stamp flags)).Ended := by
  obtain ⟨hmarks, houtcome⟩ := a.finished_course success nativeSize inlinedBytes stamp hflags
  have hcourse := Task.SameCourse.flagMisplaced
    (a.finished success nativeSize inlinedBytes stamp flags)
  have hboth := hmarks.trans hcourse.toSameMarks
  refine .finished ?_ ?_ (fun hmem => h.not_incomplete ((hboth.mark_iff _ rfl).mp hmem))
    (fun hmem => h.not_implicit ((hboth.mark_iff _ rfl).mp hmem))
  · rw [Collector.state_flagMisplaced]
    exact a.state_finished success nativeSize inlinedBytes stamp hflags
  · rw [hcourse.outcome_eq, houtcome]
    exact Collector.finalOutcome_cases success a.task.outcome

/-- Whatever a log says, the tasks that it hands over have ended. -/
theorem Unended.custody : Custody Unended (fun a => Unending a.task) Task.Ended where
  met id method := ⟨Unparsed.custody.met id method, rfl, by simp [Collector.implicitTask]⟩
  told_waiting hf h := h.told hf
  told_active hf h := h.sameCourse (.told hf _)
  begun facts thread hflags htaken :=
    (Unending.of_taken htaken).sameCourse (.beginTask facts thread hflags _)
  heard shape e hflags h := h.heard hflags shape e
  framed bci method methodId h := h
  finished success nativeSize inlinedBytes stamp hflags h :=
    h.finished hflags success nativeSize inlinedBytes stamp
  cut h := .cutShort h.not_succeeded fun hmem => absurd hmem h.not_implicit
  forgotten h := by
    refine .cutShort ?_ fun _ => ⟨h.unparsed.topLevel_eq, h.unparsed.nodes_eq⟩
    rw [h.outcome_eq]
    exact Outcome.noConfusion
  bridged id facts hflags := by
    obtain ⟨_, houtcome, hmarks⟩ := Collector.wrapperTask_course id facts hflags
    obtain ⟨_, hstate, _⟩ := Collector.wrapperTask_eq id facts _
    exact .finished hstate (.inl houtcome) (hmarks _ rfl) (hmarks _ rfl)

/-- What a collector is given keeps what holds of the tasks. -/
theorem Custody.keeps_give {W : UInt64 → Task → Prop} {A : Compiling → Prop} {H : Task → Prop}
    (h : Custody W A H) (c : Collector) (input : Input) :
    Collector.Keeps W A H c (c.give input) := by
  cases input with
  | event e => exact h.keeps_accept c e
  | ending => exact h.keeps_finish c

/-! ### Outcomes -/

namespace Desk

/-- The outcome of the task under way goes back to what was heard of it since it began. -/
inductive Follows : Option Task → Option (List Event) → Prop where
  /-- No task is under way. -/
  | idle : Follows none none
  /-- No failure was heard. -/
  | pending {t : Task} {told : List Event} (houtcome : t.outcome = .pending)
      (htold : ∀ e ∈ told, e.isFailure = false) : Follows (some t) (some told)
  /-- A failure was heard. -/
  | failed {t : Task} {told : List Event} {reason : Option String} {e : Event}
      (houtcome : t.outcome = .failed reason) (htold : e ∈ told) (he : e.isFailure = true) :
      Follows (some t) (some told)

namespace Follows

variable {active : Option Task} {heard : Option (List Event)} {t t' : Task}

/-- An event is heard. If it is a failure then no task is under way. -/
theorem hear (h : Follows active heard) {e : Event} (he : active = none ∨ e.isFailure = false) :
    Follows active (heard.map (· ++ [e])) := by
  cases h with
  | idle => exact .idle
  | pending houtcome htold =>
    have hquiet : e.isFailure = false := he.resolve_left (Option.some_ne_none _)
    refine .pending houtcome fun e' he' => ?_
    rcases List.mem_append.mp he' with hbefore | hlast
    · exact htold e' hbefore
    · rw [List.mem_singleton.mp hlast]
      exact hquiet
  | failed houtcome htold hfailure =>
    exact .failed houtcome (List.mem_append_left _ htold) hfailure

/-- A failure is heard. -/
theorem fail (h : Follows (some t) heard) {reason : Option String} {stamp : Option Stamp}
    (houtcome : t'.outcome = .failed reason) :
    Follows (some t') (heard.map (· ++ [.failure reason stamp])) := by
  have hlast : ∀ told : List Event, Event.failure reason stamp ∈ told ++ [.failure reason stamp] :=
    fun told => List.mem_append_right _ List.mem_cons_self
  cases h with
  | pending _ htold => exact .failed houtcome (hlast _) rfl
  | failed _ htold hfailure => exact .failed houtcome (hlast _) rfl

/-- More is told of the task under way. -/
theorem tell (h : Follows (some t) heard) (houtcome : t'.outcome = t.outcome) :
    Follows (some t') heard := by
  cases h with
  | pending hpending htold => exact .pending (houtcome.trans hpending) htold
  | failed hfailed htold hfailure => exact .failed (houtcome.trans hfailed) htold hfailure

/-- A finished task succeeded if no failure was heard and its end tells none. -/
theorem succeeded_iff {told : List Event} (h : Follows (some t) (some told))
    (success : Option Bool) :
    Collector.finalOutcome success t.outcome = .succeeded ↔
      success ≠ some false ∧ ∀ e ∈ told, e.isFailure = false := by
  rw [Collector.finalOutcome_eq_succeeded_iff]
  refine and_congr_right fun _ => ?_
  cases h with
  | pending houtcome htold =>
    refine iff_of_true (fun reason => ?_) htold
    rw [houtcome]
    exact Outcome.noConfusion
  | @failed _ _ reason e houtcome htold hfailure =>
    refine iff_of_false (fun h => h reason houtcome) fun h => ?_
    rw [h e htold] at hfailure
    cases hfailure

end Follows

/-- Every outcome on a desk goes back to what was heard. -/
structure Attended (d : Desk) : Prop where
  /-- The outcome of a task that waits is open. -/
  waiting : ∀ id t, d.waiting.get? id = some t → t.outcome = .pending
  /-- That of the task under way goes back to what was heard of it. -/
  active : Follows d.active d.heard

variable {d d' : Desk} {items : List Item}

/-- Every outcome goes back to what was heard when another task waits. -/
theorem Attended.wait (h : d.Attended) {id : UInt64} {t : Task} (ht : t.outcome = .pending) :
    Attended { d with waiting := d.waiting.insert id t } := by
  refine ⟨fun id' t' hfound => ?_, h.active⟩
  simp only [KeyMap.get?_insert] at hfound
  split_ifs at hfound
  · obtain rfl := Option.some.inj hfound
    exact ht
  · exact h.waiting id' t' hfound

/-- Taking a task from those that wait leaves the outcomes of the others. -/
theorem Attended.waiting_erase (h : d.Attended) (id : UInt64) :
    ∀ id' t, (d.waiting.erase id).get? id' = some t → t.outcome = .pending := by
  intro id' t hfound
  simp only [KeyMap.get?_erase] at hfound
  split_ifs at hfound
  exact h.waiting id' t hfound

/-- After every move, outcomes go back to what was heard. -/
theorem Attended.move (h : d.Attended) (hmove : Move d items d') : d'.Attended := by
  have hactive := h.active
  cases hmove with
  | passes htasks hlate => exact h
  | hears he => exact ⟨h.waiting, hactive.hear he⟩
  | fails ht hsame houtcome =>
    rw [ht] at hactive
    exact ⟨h.waiting, hactive.fail houtcome⟩
  | idles hidle => exact ⟨h.waiting, hidle ▸ .idle⟩
  | tells ht hsame =>
    rw [ht] at hactive
    exact ⟨h.waiting, hactive.tell hsame.outcome_eq⟩
  | foretells ht hsame => exact h.wait (hsame.outcome_eq.trans (h.waiting _ _ ht))
  | meets _ _ houtcome _ => exact h.wait houtcome
  | begins hidle ht hsame houtcome =>
    exact ⟨h.waiting_erase _, .pending (houtcome.trans (h.waiting _ _ ht)) (by simp)⟩
  | opens hidle hwaiting houtcome hagain => exact ⟨h.waiting, .pending houtcome (by simp)⟩
  | leaves ht hsame => exact ⟨h.waiting, .idle⟩
  | forgets ht hsame => exact ⟨h.waiting_erase _, hactive⟩
  | bridges _ _ _ _ => exact ⟨h.waiting, hactive⟩

/-- After a run of moves, outcomes go back to what was heard. -/
theorem Attended.moves (h : d.Attended) (hmoves : Moves d items d') : d'.Attended :=
  Moves.respect (P := fun _ d => d.Attended) (fun h hmove => h.move hmove) [] h hmoves

end Desk

/-- What is handed over where the end of a task is told: nothing if none is under way, else that task
alone. It is finished, and it succeeded if and only if no failure was heard of it since it began and
its end does not tell one. -/
def EndsAs (heard : Option (List Event)) (success : Option Bool) (ts : List Task) : Prop :=
  match heard with
  | none => ts = []
  | some told =>
    ∃ t, ts = [t] ∧ t.state = .closed ∧
      (t.outcome = .succeeded ↔ success ≠ some false ∧ ∀ e ∈ told, e.isFailure = false)

namespace Collector

/-- Whatever a new collector is given, outcomes go back to what was heard. -/
theorem attended_feed (retain : Bool) (inputs : List Input) :
    ((feed retain inputs).1.desk (underway inputs)).Attended := by
  have hstart : ((start retain).desk none).Attended := by
    refine ⟨fun id t hfound => ?_, .idle⟩
    cases hfound
  exact hstart.moves (moves_feed retain inputs)

/-- The task under way is finished, and nothing else is handed over. -/
theorem tasksOf_finishTask (c : Collector) (success : Option Bool)
    (nativeSize inlinedBytes : Option UInt64) (stamp : Option Stamp) (flags : List TaskFlag) :
    tasksOf (c.finishTask success nativeSize inlinedBytes stamp flags).2 =
      (c.active.map fun a =>
        flagMisplaced (a.finished success nativeSize inlinedBytes stamp flags)).toList := by
  cases hactive : c.active with
  | none =>
    unfold finishTask
    rw [hactive]
    rfl
  | some a =>
    obtain ⟨sample, hsample, heq⟩ :=
      finishTask_of_active hactive success nativeSize inlinedBytes stamp flags
    rw [heq, tasksOf_append, hsample, List.nil_append, tasksOf_handOver]
    rfl

/-- So it is where the end of a task is told, once what is printed has been read. -/
theorem tasksOf_accept_taskDone (c : Collector) {e : LogEvent} {success : Option Bool}
    {nativeSize inlinedBytes : Option UInt64} {stamp : Option Stamp}
    (he : e.event = .taskDone success nativeSize inlinedBytes stamp) :
    tasksOf (c.accept e).2 =
      ((c.flushBefore e.event).1.active.map fun a => flagMisplaced
        (a.finished success nativeSize inlinedBytes stamp (unreadFlags e))).toList := by
  unfold accept
  simp only [tasksOf_append, tasksOf_flushBefore, List.nil_append]
  rw [he]
  exact tasksOf_finishTask _ success nativeSize inlinedBytes stamp (unreadFlags e)

/-- The task under way is finished with the outcome that goes back to what was heard of it. -/
theorem endsAs_of_follows {active : Option Compiling} {heard : Option (List Event)}
    (h : Desk.Follows (active.map Compiling.task) heard) (success : Option Bool)
    (nativeSize inlinedBytes : Option UInt64) (stamp : Option Stamp) {flags : List TaskFlag}
    (hflags : Unread flags) :
    EndsAs heard success (active.map fun a =>
      flagMisplaced (a.finished success nativeSize inlinedBytes stamp flags)).toList := by
  cases active with
  | none =>
    cases h
    rfl
  | some a =>
    obtain ⟨_, houtcome⟩ := a.finished_course success nativeSize inlinedBytes stamp hflags
    have hstate := a.state_finished success nativeSize inlinedBytes stamp hflags
    cases heard with
    | none => cases h
    | some told =>
      refine ⟨_, rfl, (state_flagMisplaced _).trans hstate, ?_⟩
      rw [(Task.SameCourse.flagMisplaced _).outcome_eq, houtcome]
      exact h.succeeded_iff success

/-- Where the end of a task is told the task under way is finished, and nothing else is handed
over. -/
theorem accept_of_attended {c : Collector} {heard : Option (List Event)}
    (h : (c.desk heard).Attended) {e : LogEvent} (success : Option Bool)
    (nativeSize inlinedBytes : Option UInt64) (stamp : Option Stamp)
    (he : e.event = .taskDone success nativeSize inlinedBytes stamp) :
    EndsAs heard success (tasksOf (c.accept e).2) := by
  have hflushed := h.moves (c.moves_flushBefore heard e.event)
  rw [c.tasksOf_accept_taskDone he]
  exact endsAs_of_follows hflushed.active success nativeSize inlinedBytes stamp
    (unread_unreadFlags e)

/-- Whatever a collector is given, every task that it hands over has ended as it should, and where
the end of a task is told the outcome goes back to what was heard of the task under way. -/
theorem tasks_end_as_heard (retain : Bool) (inputs : List Input) :
    (∀ t ∈ tasksOf (feed retain inputs).2, t.Ended) ∧
    ∀ (e : LogEvent) (success : Option Bool) (nativeSize inlinedBytes : Option UInt64)
      (stamp : Option Stamp),
      EndsAs (underway inputs) success (tasksOf ((feed retain inputs).1.accept
        { e with event := .taskDone success nativeSize inlinedBytes stamp }).2) := by
  refine ⟨?_, fun e success nativeSize inlinedBytes stamp => ?_⟩
  · have hstart : (start retain).Holds Unended fun a => Unending a.task := by
      refine ⟨fun id t hfound => ?_, fun a ha => ?_⟩
      · cases hfound
      · cases ha
    exact (Keeps.each (fun c input => Unended.custody.keeps_give c input) _ inputs hstart).2
  · refine accept_of_attended (attended_feed retain inputs) success nativeSize inlinedBytes stamp ?_
    rfl

end Collector

end Collect

end CompileLog

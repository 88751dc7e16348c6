import CompileLog.Proofs.History.Arrival

/-!
# Tasks of earlier readings

A task that is filed bears the number of the running reading, and events, installed code and listings
only go to tasks that bear it. So once a reading has begun, the tasks of the readings before it stay
as they are: in their histories, in their order, and with all that is known of them.
-/

namespace CompileLog

/-- What readings before one have filed on a timeline. -/
def earlierThan (pass : Nat) (timeline : List Task) : List Task :=
  timeline.filter fun t => t.pass < pass

/-- Where all tasks are of readings before one, nothing else is on the timeline. -/
theorem earlierThan_of_forall_lt {pass : Nat} {timeline : List Task}
    (h : ∀ t ∈ timeline, t.pass < pass) : earlierThan pass timeline = timeline :=
  List.filter_eq_self.mpr fun t ht => decide_eq_true (h t ht)

/-- An element that a filter drops may be put anywhere. By induction on the list. -/
theorem filter_insertIdx_of_neg {α : Type} {p : α → Bool} {x : α} (hx : p x = false) (l : List α)
    (i : Nat) : (l.insertIdx i x).filter p = l.filter p := by
  induction l generalizing i with
  | nil => cases i <;> simp [hx]
  | cons head rest ih =>
    cases i with
    | zero => simp [hx]
    | succ i => rw [List.insertIdx_succ_cons, List.filter_cons, List.filter_cons, ih]

namespace MethodHistory

/-- A task that joins leaves the tasks of readings before its own as they are. -/
theorem earlierThan_insert (h : MethodHistory) {t : Task} {pass : Nat} (hpass : pass ≤ t.pass)
    (duplicate : Bool) :
    earlierThan pass (h.insert t duplicate).tasks = earlierThan pass h.tasks := by
  have hlater : ¬ t.pass < pass := by omega
  rw [tasks_insert]
  exact filter_insertIdx_of_neg (p := fun t => t.pass < pass) (decide_eq_false hlater) h.tasks _

/-- A remark on a task leaves the tasks of readings before that task's own as they are. -/
theorem earlierThan_addRemark (h : MethodHistory) (id : UInt64) {pass pass' : Nat}
    (hpass : pass ≤ pass') (r : Remark) :
    earlierThan pass (h.modifyTask id pass' fun t => t.addRemark r).tasks =
      earlierThan pass h.tasks := by
  rcases h.modifyTask_cases id pass' (fun t => t.addRemark r) with
    ⟨_, hsame⟩ | ⟨before, t, behind, htasks, hnamed, hchanged⟩
  · rw [hsame]
  · have hbefore : ¬ t.pass < pass := by
      have hof := (Task.isNamed_iff.mp hnamed).2
      omega
    have hafter : ¬ (t.addRemark r).pass < pass := by
      rw [(t.addRemark_keeps r).2]
      exact hbefore
    simp only [earlierThan, hchanged, htasks, List.filter_append, List.filter_cons, hbefore, hafter,
      decide_false, Bool.false_eq_true, if_false]

end MethodHistory

/-- Where the same is filed, the timelines are the same. -/
theorem SameFiled.timelineOf_eq {a b : Archive} (h : SameFiled a b) (m : Method) :
    a.timelineOf m = b.timelineOf m := by
  unfold Archive.timelineOf Archive.historyOf?
  rw [h.histories_eq]

/-- What stands on a timeline stands in its history. -/
theorem Archive.mem_values_of_mem_timelineOf {a : Archive} {m : Method} {t : Task}
    (h : t ∈ a.timelineOf m) : ∃ bound ∈ a.histories.values, t ∈ bound.tasks := by
  unfold timelineOf at h
  cases hfound : a.historyOf? m with
  | none =>
    rw [hfound] at h
    cases h
  | some bound =>
    rw [hfound] at h
    exact ⟨bound, KeyMap.mem_values_of_get? hfound, h⟩

/-- Setting a history in which the tasks of readings before one are those that its method had leaves
these as they are on all timelines. -/
theorem Index.earlierThan_of_histories_insert {x y : Index} {key : Method} {h : MethodHistory}
    {pass : Nat} (hhistories : y.histories = x.histories.insert key h)
    (hkept : earlierThan pass h.tasks = earlierThan pass (x.timelineOf key)) (m : Method) :
    earlierThan pass (y.timelineOf m) = earlierThan pass (x.timelineOf m) := by
  rw [timelineOf_of_histories_insert hhistories]
  split
  · next heq => rw [hkept, heq]
  · rfl

/-- Whatever is filed from the beginning of a reading on, the tasks of the readings before it stay as
they are on every timeline. -/
theorem ArchiveInvariant.earlierThan (pass : Nat) (kept : Method → List Task) :
    ArchiveInvariant (fun _ => True) fun a =>
      pass ≤ a.pass ∧ ∀ m, CompileLog.earlierThan pass (a.timelineOf m) = kept m where
  congr hsame h := by
    refine ⟨hsame.pass_eq ▸ h.1, fun m => ?_⟩
    rw [hsame.timelineOf_eq]
    exact h.2 m
  beginPass x h := ⟨Nat.le_succ_of_le h.1, h.2⟩
  recordTask x t _ h := by
    refine ⟨(x.pass_recordTask t).symm ▸ h.1, fun m => Eq.trans ?_ (h.2 m)⟩
    have hhistories := congrArg (fun y : Index => y.histories) (x.recordTask_eq t)
    refine Index.earlierThan_of_histories_insert hhistories ?_ m
    rw [MethodHistory.earlierThan_insert _ ((x.completed_named t).2 ▸ h.1), x.tasks_historyFor]
  recordDeopt x d h := by
    refine ⟨(x.pass_recordDeopt d).symm ▸ h.1, fun m => Eq.trans ?_ (h.2 m)⟩
    rcases x.recordDeopt_cases d with ⟨o, bound, _, _, hfound, heq⟩ | heq
    · rw [heq]
      refine Index.earlierThan_of_histories_insert rfl ?_ m
      rw [MethodHistory.tasks_bindDeopt, bound.earlierThan_addRemark d.compileId h.1,
        Archive.timelineOf, Archive.historyOf?, hfound, Option.elim]
    · rw [heq, (x.sameFiled_hold _ _).timelineOf_eq]
  recordRemark x id r _ h := by
    refine ⟨(x.pass_recordRemark id r).symm ▸ h.1, fun m => Eq.trans ?_ (h.2 m)⟩
    rcases x.recordRemark_cases id r with ⟨o, bound, _, _, hfound, heq⟩ | heq
    · rw [heq]
      refine Index.earlierThan_of_histories_insert rfl ?_ m
      rw [bound.earlierThan_addRemark id h.1, Archive.timelineOf, Archive.historyOf?, hfound,
        Option.elim]
    · rw [heq, (x.sameFiled_hold _ _).timelineOf_eq]

/-- Every filed task bears the number of a reading that has begun, from an empty or a stored archive
on and after every sequence of acts. -/
theorem Origin.pass_le (o : Origin) (acts : List Act) :
    ∀ h ∈ (o.store.run acts).histories, ∀ t ∈ h.tasks,
      t.pass ≤ (o.store.run acts).archive.pass := by
  have htasks := ArchiveInvariant.of_tasks (Q := fun _ => True) (fun _ _ _ => trivial)
    (fun _ _ _ => trivial)
  have hfiled : ∀ a ∈ acts, a.Files fun _ => True := fun a _ => a.files_true
  have hall := htasks.run (s := o.store) ?_ hfiled
  · exact fun h hmem t ht => (hall h hmem t ht).2
  · cases o with
    | empty capacity => simp [Origin.store, Store.archive, Index.empty, Archive.empty]
    | stored s => exact s.forall_tasks_toArchive fun _ _ _ _ => trivial

/-- No reading changes what earlier ones filed. From an empty or a stored archive, after every
sequence of acts, a further reading begins. All tasks filed so far are of readings before it.
Whatever tasks, events, installed code and listings are filed then, and whatever is done after that,
the tasks of these readings are on the timeline of each method exactly those that were there,
unchanged and in their order. Numbers of readings have 32 bits: that of the last reading is to fit,
and then those of this reading and of all tasks do. -/
theorem earlier_readings_stay (o : Origin) (acts : List Act) {x : Index}
    (h : o.store.run acts = .writing x) (later : List Act)
    (hcount : ((Store.writing x.beginPass).run later).archive.pass < UInt32.size) (m : Method) :
    let begun := x.beginPass
    let after := ((Store.writing begun).run later).archive
    (∀ t ∈ x.timelineOf m, t.pass < begun.pass) ∧
      (after.timelineOf m).filter (fun t => t.pass < begun.pass) = x.timelineOf m ∧
      begun.pass < UInt32.size ∧ ∀ t ∈ after.timelineOf m, t.pass < UInt32.size := by
  intro begun after
  have hpass : ∀ m, ∀ t ∈ x.timelineOf m, t.pass < begun.pass := by
    intro m t ht
    obtain ⟨bound, hbound, ht⟩ := Archive.mem_values_of_mem_timelineOf ht
    have hle := o.pass_le acts
    rw [h] at hle
    exact Nat.lt_succ_of_le (hle bound hbound t ht)
  have hbegin : begun.pass ≤ begun.pass ∧
      ∀ m, earlierThan begun.pass (begun.timelineOf m) = x.timelineOf m :=
    ⟨Nat.le_refl _, fun m => earlierThan_of_forall_lt (hpass m)⟩
  have hrun := (ArchiveInvariant.earlierThan begun.pass x.timelineOf).run
    (s := .writing begun) hbegin fun (a : Act) (_ : a ∈ later) => a.files_true
  refine ⟨hpass m, hrun.2 m, Nat.lt_of_le_of_lt hrun.1 hcount, fun t ht => ?_⟩
  obtain ⟨bound, hbound, ht⟩ := Archive.mem_values_of_mem_timelineOf ht
  have hle := o.pass_le (acts ++ .beginPass :: later)
  rw [Store.run_append, h] at hle
  exact Nat.lt_of_le_of_lt (hle bound hbound t ht) hcount

/-- A task is filed, and writing rests. -/
def filedBeforeRest : List Act :=
  [.beginPass,
    .record (.task { Task.new 7 ⟨"A", "a", "()V"⟩ with state := .closed, outcome := .succeeded }),
    .freeze, .thaw 2]

/-- The number is used again in another reading, in which its code goes out of service. -/
def numberUsedAgain : List Act :=
  [.record (.deopt ⟨7, .madeNotEntrant, none, none, none, none, none⟩),
    .record (.task (Task.new 7 ⟨"A", "a", "()V"⟩)),
    .record (.deopt ⟨7, .madeNotEntrant, none, none, none, none, none⟩),
    .record (.lateNative 7 .unknown)]

/-- The later reading has two events and installed code for a number that the earlier one used; both
tasks are on the timeline, and the earlier one has none of these. -/
theorem earlier_readings_stay_numberUsedAgain :
    ∃ x, (Origin.empty 2).store.run filedBeforeRest = .writing x ∧
      let after := ((Store.writing x.beginPass).run numberUsedAgain).archive
      after.pass < UInt32.size ∧ (after.timelineOf ⟨"A", "a", "()V"⟩).map (fun t => (t.pass, t.deopts.length, t.native)) =
        [(1, 0, none), (2, 2, some .unknown)] ∧
      (after.timelineOf ⟨"A", "a", "()V"⟩).filter (fun t => t.pass < 2) =
        x.timelineOf ⟨"A", "a", "()V"⟩ := by
  refine ⟨_, rfl, by decide +kernel, by decide +kernel, ?_⟩
  exact (earlier_readings_stay (.empty 2) filedBeforeRest rfl numberUsedAgain (by decide +kernel)
    _).2.1

end CompileLog

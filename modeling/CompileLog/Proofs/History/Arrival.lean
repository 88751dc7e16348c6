import CompileLog.Proofs.Collect.Handover
import CompileLog.Proofs.History.Current
import CompileLog.Proofs.History.Joining
import CompileLog.Proofs.History.Numbers
import CompileLog.Proofs.History.Pending
import CompileLog.Proofs.History.Reload
import CompileLog.Proofs.History.Tasks

/-!
# What a reading files

Within one reading a log tells tasks and events in any order: an event may come before its task and
wait for it, or after it and be bound at once. What is filed in the end is told by the tasks and by
the events in their order: each task has the events of its number and joins the timeline of its
method, and the events without a task still wait. This holds as long as the numbers of the tasks are
distinct and no event is given up.
-/

namespace CompileLog

open Collect

/-! ### Tasks with their events -/

/-- A task as a reading has filed it once some events have come: it bears the number of the reading,
and has the events of its own number. -/
def Task.filedWith (pass : Nat) (deopts : List Deopt) (t : Task) : Task :=
  { t with pass := pass, deopts := t.deopts ++ deopts.filter fun d => d.compileId = t.compileId }

/-- The timeline of a method, empty where it has no history. -/
def Archive.timelineOf (a : Archive) (m : Method) : List Task :=
  (a.historyOf? m).elim [] MethodHistory.tasks

/-- Adds an event to the task of its number in a reading. -/
def Deopt.bindTo (pass : Nat) (d : Deopt) (t : Task) : Task :=
  if t.isNamed d.compileId pass then t.addRemark (.deopt d) else t

/-- An event leaves a task in its place. -/
theorem Deopt.place_bindTo (pass : Nat) (d : Deopt) (t : Task) :
    (d.bindTo pass t).place = t.place := by
  unfold bindTo
  split <;> rfl

/-- Events that come as remarks are added to those of the task. By induction on the events. -/
theorem Task.foldl_addRemark_deopt (deopts : List Deopt) (t : Task) :
    (deopts.map Remark.deopt).foldl addRemark t = { t with deopts := t.deopts ++ deopts } := by
  induction deopts generalizing t with
  | nil => simp
  | cons d rest ih => simp [ih, addRemark]

/-- One event more goes to the task of its number. -/
theorem Task.filedWith_concat (pass : Nat) (deopts : List Deopt) (d : Deopt) (t : Task) :
    t.filedWith pass (deopts ++ [d]) = d.bindTo pass (t.filedWith pass deopts) := by
  unfold Deopt.bindTo filedWith isNamed
  by_cases hid : t.compileId = d.compileId
  · simp [hid, addRemark]
  · have hid' : d.compileId ≠ t.compileId := fun heq => hid heq.symm
    simp [hid, hid']

/-- An event of another number leaves a task as it is. -/
theorem Task.filedWith_concat_of_ne (pass : Nat) (deopts : List Deopt) {d : Deopt} {t : Task}
    (h : t.compileId ≠ d.compileId) :
    t.filedWith pass (deopts ++ [d]) = t.filedWith pass deopts := by
  rw [filedWith_concat]
  refine if_neg fun hnamed => h ?_
  exact (Task.isNamed_iff.mp hnamed).1

/-- An event leaves tasks as they are that do not have its number in the reading. -/
theorem Deopt.map_bindTo {pass : Nat} {d : Deopt} {tasks : List Task}
    (h : ∀ t ∈ tasks, t.isNamed d.compileId pass = false) :
    tasks.map (d.bindTo pass) = tasks := by
  have hkept : ∀ t ∈ tasks, d.bindTo pass t = id t := by
    intro t ht
    unfold bindTo
    rw [h t ht]
    rfl
  rw [List.map_congr_left hkept, List.map_id]

/-- Where at most one task has a number in a reading, an event of that number is added to just that
task. -/
theorem MethodHistory.tasks_bindDeopt_eq_map {h : MethodHistory} {pass : Nat} {d : Deopt}
    (hone : h.tasks.countP (Task.isNamed d.compileId pass) ≤ 1) :
    (h.bindDeopt pass d).tasks = h.tasks.map (d.bindTo pass) := by
  have hothers : ∀ tasks : List Task, tasks.countP (Task.isNamed d.compileId pass) = 0 →
      tasks.map (d.bindTo pass) = tasks := fun tasks hnone =>
    Deopt.map_bindTo fun t ht => Bool.eq_false_iff.mpr (List.countP_eq_zero.mp hnone t ht)
  rw [tasks_bindDeopt]
  rcases h.modifyTask_cases d.compileId pass (fun t => t.addRemark (.deopt d)) with
    ⟨hnone, hsame⟩ | ⟨before, t, behind, htasks, hnamed, hchanged⟩
  · rw [hsame, Deopt.map_bindTo hnone]
  · have hbound : d.bindTo pass t = t.addRemark (.deopt d) := if_pos hnamed
    rw [htasks, List.countP_append, List.countP_cons, if_pos hnamed] at hone
    rw [hchanged, htasks, List.map_append, List.map_cons, hothers before (by omega),
      hothers behind (by omega), hbound]

/-! ### What is filed -/

/-- An index has changed only in its histories, in what numbers mean, and in what waits. -/
structure Index.SameRest (x y : Index) : Prop where
  pass_eq : y.pass = x.pass
  capacity_eq : y.capacity = x.capacity
  orphanDeopts_eq : y.orphanDeopts = x.orphanDeopts
  orphanListings_eq : y.orphanListings = x.orphanListings
  codeCache_eq : y.codeCache = x.codeCache
  headers_eq : y.headers = x.headers
  dropped_eq : y.dropped = x.dropped

/-- Changes come one after the other. -/
theorem Index.SameRest.trans {x y z : Index} (h : x.SameRest y) (h' : y.SameRest z) :
    x.SameRest z where
  pass_eq := h'.pass_eq.trans h.pass_eq
  capacity_eq := h'.capacity_eq.trans h.capacity_eq
  orphanDeopts_eq := h'.orphanDeopts_eq.trans h.orphanDeopts_eq
  orphanListings_eq := h'.orphanListings_eq.trans h.orphanListings_eq
  codeCache_eq := h'.codeCache_eq.trans h.codeCache_eq
  headers_eq := h'.headers_eq.trans h.headers_eq
  dropped_eq := h'.dropped_eq.trans h.dropped_eq

/-- Each history is kept under its method, in order, and with the right code in service. -/
structure Archive.WellKept (a : Archive) : Prop where
  keyed : a.Keyed
  inOrder : ∀ h ∈ a.histories.values, h.InOrder
  inService : ∀ h ∈ a.histories.values, InService h.tasks h.current

/-- A reading has begun: no task is of it, no number means anything in it, and nothing waits. -/
structure Index.Begun (x : Index) : Prop where
  wellKept : x.WellKept
  tidy : x.Tidy x.capacity
  pending_eq : x.pending = #[]
  owners : ∀ id o, x.owners.get? id = some o → o.pass ≠ x.pass
  tasks : ∀ h ∈ x.histories.values, ∀ t ∈ h.tasks, t.pass ≠ x.pass

/-- What is filed once a reading has told some tasks and events. -/
structure Index.Filed (start : Index) (tasks : List Task) (deopts : List Deopt) (x : Index) :
    Prop where
  wellKept : x.WellKept
  tidy : x.Tidy start.capacity
  rest : start.SameRest x
  /-- The tasks of each method, with their events, have joined its timeline. -/
  timeline : ∀ m, x.timelineOf m =
    ((tasks.filter fun t => t.method = m).map (Task.filedWith start.pass deopts)).foldl joined
      (start.timelineOf m)
  /-- The methods of the tasks have histories. -/
  known : ∀ m, (x.historyOf? m).isSome =
    ((start.historyOf? m).isSome || tasks.any fun t => t.method = m)
  /-- The numbers of the tasks mean these tasks. -/
  meant : ∀ t ∈ tasks, x.owners.get? t.compileId = some ⟨start.pass, t.method⟩
  /-- Other numbers mean what they meant before. -/
  others : ∀ id, (∀ t ∈ tasks, t.compileId ≠ id) → x.owners.get? id = start.owners.get? id
  /-- The events of other numbers wait, in their order. -/
  pending : x.pending.toList =
    (deopts.filter fun d => tasks.all fun t => t.compileId ≠ d.compileId).map
      fun d => (d.compileId, Remark.deopt d)

/-- Where a reading begins, no task on a timeline is of it. -/
theorem Index.Begun.timeline_pass {start : Index} (h : start.Begun) (m : Method) :
    ∀ t ∈ start.timelineOf m, t.pass ≠ start.pass := by
  unfold Archive.timelineOf
  cases hfound : start.historyOf? m with
  | none => simp
  | some bound => exact h.tasks bound (KeyMap.mem_values_of_get? hfound)

/-- An index that holds nothing is where any reading may begin. -/
theorem Index.begun_empty (capacity pass : Nat) :
    Index.Begun { Index.empty capacity with pass := pass } where
  wellKept := ⟨Archive.Keyed.empty, by simp [Index.empty, Archive.empty],
    by simp [Index.empty, Archive.empty]⟩
  tidy := (Index.tidy_empty capacity).congr rfl rfl rfl rfl
  pending_eq := rfl
  owners id o ho := by cases ho
  tasks := by simp [Index.empty, Archive.empty]

/-- Where nothing waits, the next reading begins. -/
theorem Index.begun_beginPass {x : Index} {room : Nat} (hkept : x.WellKept) (htidy : x.Tidy room)
    (hnone : x.pending = #[]) (howned : x.Owned) (hnumbered : x.Numbered) :
    x.beginPass.Begun where
  wellKept := ⟨hkept.keyed, hkept.inOrder, hkept.inService⟩
  tidy := by
    rw [← htidy.capacity_eq] at htidy
    exact htidy.congr rfl rfl rfl rfl
  pending_eq := hnone
  owners id o ho := by
    obtain ⟨h, hfound, t, ht, _, hpass⟩ := howned id o ho
    obtain ⟨_, _, hle, hbegun⟩ := hnumbered h (KeyMap.mem_values_of_get? hfound) t ht
    show o.pass ≠ x.pass + 1
    omega
  tasks h hmem t ht := by
    obtain ⟨_, _, hle, hbegun⟩ := hnumbered h hmem t ht
    show t.pass ≠ x.pass + 1
    omega

/-- Where a reading begins, nothing is filed yet. -/
theorem Index.Begun.filed {start : Index} (h : start.Begun) : start.Filed [] [] start where
  wellKept := h.wellKept
  tidy := h.tidy
  rest := ⟨rfl, rfl, rfl, rfl, rfl, rfl, rfl⟩
  timeline _ := rfl
  known m := by rw [List.any_nil, Bool.or_false]
  meant t ht := absurd ht List.not_mem_nil
  others _ _ := rfl
  pending := by rw [h.pending_eq]; rfl

namespace Index

variable {start x y : Index} {tasks : List Task} {deopts : List Deopt}

/-- Setting a history sets the timeline of its method. -/
theorem timelineOf_of_histories_insert {key : Method} {h : MethodHistory}
    (hhistories : y.histories = x.histories.insert key h) (m : Method) :
    y.timelineOf m = if key = m then h.tasks else x.timelineOf m := by
  unfold Archive.timelineOf Archive.historyOf?
  rw [hhistories, KeyMap.get?_insert]
  split <;> rfl

/-- Setting a history makes the history of its method known. -/
theorem isSome_historyOf?_of_histories_insert {key : Method} {h : MethodHistory}
    (hhistories : y.histories = x.histories.insert key h) (m : Method) :
    (y.historyOf? m).isSome = ((x.historyOf? m).isSome || decide (key = m)) := by
  unfold Archive.historyOf?
  rw [hhistories, KeyMap.get?_insert]
  by_cases hkey : key = m
  · simp [hkey]
  · simp [hkey]

/-- The history that a task joins has the timeline of its method. -/
theorem tasks_historyFor (x : Index) (t : Task) :
    (x.historyFor t).tasks = x.timelineOf t.method := by
  unfold historyFor Archive.timelineOf
  cases x.historyOf? t.method <;> rfl

/-- What waits under a number is on the events of that number. -/
theorem Filed.completed_eq (h : start.Filed tasks deopts x) {t : Task}
    (hnew : ∀ t' ∈ tasks, t'.compileId ≠ t.compileId) :
    x.completed t = t.filedWith start.pass deopts := by
  have htaken := (takePending_of_tidy h.tidy t.compileId).2
  have hevents : (x.takePending t.compileId).2 =
      (deopts.filter fun d => d.compileId = t.compileId).map Remark.deopt := by
    rw [htaken, h.pending, List.filter_map, List.map_map, List.filter_filter]
    refine congrArg (List.map Remark.deopt) (List.filter_congr fun d _ => ?_)
    by_cases hid : d.compileId = t.compileId
    · simpa [hid] using hnew
    · simp [hid]
  unfold completed
  rw [hevents, Task.foldl_addRemark_deopt, h.rest.pass_eq]
  rfl

/-- Taking out what waits leaves the rest as it is. -/
theorem sameRest_takePending (x : Index) (id : UInt64) : x.SameRest (x.takePending id).1 := by
  unfold takePending
  split
  · exact ⟨rfl, rfl, rfl, rfl, rfl, rfl, rfl⟩
  · exact ⟨rfl, rfl, rfl, rfl, rfl, rfl, rfl⟩

/-- Filing what leaves all tasks in their places keeps the histories well. -/
theorem wellKept_record (h : x.WellKept) (item : Item)
    (hitem : (Store.writing x).leavesPlaces (.record item) = true) :
    (x.record item).WellKept where
  keyed := Archive.Keyed.archiveInvariant.act (s := .writing x) h.keyed
    (Act.files_true (.record item))
  inOrder := MethodHistory.InOrder.placesInvariant.act (s := .writing x) h.inOrder hitem
  inService := historyInvariant_inService.archiveInvariant.act (s := .writing x) h.inService
    (Act.files_true (.record item))

/-! ### One task more -/

/-- A task of a new number takes its number, and joins the timeline of its method together with the
events that waited for it. -/
theorem Filed.recordTask_eq (hstart : start.Begun) (h : start.Filed tasks deopts x) {t : Task}
    (hnew : ∀ t' ∈ tasks, t'.compileId ≠ t.compileId) :
    x.recordTask t =
      { (x.takePending t.compileId).1 with
        owners := x.owners.insert t.compileId ⟨start.pass, t.method⟩
        histories := x.histories.insert t.method
          ((x.historyFor t).insert (t.filedWith start.pass deopts)
            (x.owners.get? t.compileId).isSome) } := by
  have hbefore : ¬ ((x.owners.get? t.compileId).any fun o => o.pass = start.pass) = true := by
    intro hnow
    obtain ⟨o, ho, hpass⟩ := (Option.any_eq_true _ _).mp hnow
    rw [h.others _ hnew] at ho
    exact hstart.owners _ o ho (of_decide_eq_true hpass)
  rw [Index.recordTask_eq, h.completed_eq hnew, h.rest.pass_eq, if_neg hbefore]
  rfl

/-- A task of a new number joins the timeline of its method. -/
theorem Filed.timelineOf_recordTask (hstart : start.Begun) (h : start.Filed tasks deopts x)
    {t : Task} (hnew : ∀ t' ∈ tasks, t'.compileId ≠ t.compileId) (m : Method) :
    (x.recordTask t).timelineOf m =
      if t.method = m then joined (x.timelineOf m) (t.filedWith start.pass deopts)
      else x.timelineOf m := by
  have horder : (x.historyFor t).InOrder :=
    of_historyFor h.wellKept.inOrder (fun m => List.Pairwise.nil) t
  rw [h.recordTask_eq hstart hnew, timelineOf_of_histories_insert rfl, horder.tasks_insert,
    x.tasks_historyFor]
  by_cases hm : t.method = m
  · rw [if_pos hm, if_pos hm, hm]
  · rw [if_neg hm, if_neg hm]

/-- Filing a task of a new number. -/
theorem Filed.recordTask (hstart : start.Begun) (h : start.Filed tasks deopts x) {t : Task}
    (hnew : ∀ t' ∈ tasks, t'.compileId ≠ t.compileId) :
    start.Filed (tasks ++ [t]) deopts (x.recordTask t) where
  wellKept := wellKept_record h.wellKept (.task t) rfl
  tidy := h.tidy.recordTask t
  rest := by
    rw [h.recordTask_eq hstart hnew]
    refine (h.rest.trans (x.sameRest_takePending t.compileId)).trans ?_
    exact ⟨rfl, rfl, rfl, rfl, rfl, rfl, rfl⟩
  timeline m := by
    rw [h.timelineOf_recordTask hstart hnew, List.filter_append, List.map_append,
      List.foldl_append, ← h.timeline m]
    by_cases hm : t.method = m
    · simp [hm]
    · simp [hm]
  known m := by
    rw [h.recordTask_eq hstart hnew, isSome_historyOf?_of_histories_insert rfl, h.known m,
      List.any_append, List.any_cons, List.any_nil, Bool.or_false, Bool.or_assoc]
  meant t' ht' := by
    rw [h.recordTask_eq hstart hnew]
    simp only [KeyMap.get?_insert]
    rcases List.mem_append.mp ht' with hold | hlast
    · rw [if_neg (hnew t' hold).symm]
      exact h.meant t' hold
    · obtain rfl := List.mem_singleton.mp hlast
      rw [if_pos rfl]
  others id hid := by
    have hlast := hid t (List.mem_append_right _ (List.mem_singleton.mpr rfl))
    rw [h.recordTask_eq hstart hnew]
    simp only [KeyMap.get?_insert]
    rw [if_neg hlast]
    exact h.others id fun t' ht' => hid t' (List.mem_append_left _ ht')
  pending := by
    have htaken := (takePending_of_tidy h.tidy t.compileId).1
    rw [h.recordTask_eq hstart hnew]
    simp only [htaken, h.pending, List.filter_map, List.filter_filter]
    refine congrArg (List.map _) (List.filter_congr fun d _ => ?_)
    rw [List.all_append, List.all_cons, List.all_nil, Bool.and_true, Bool.and_comm]
    by_cases hid : d.compileId = t.compileId
    · simp [hid]
    · have hid' : t.compileId ≠ d.compileId := fun heq => hid heq.symm
      simp [hid, hid']

/-! ### One event more -/

/-- The number of a task leads to the history of its method. -/
theorem Filed.heldNow?_eq_some (h : start.Filed tasks deopts x) {t : Task} (ht : t ∈ tasks) :
    ∃ bound, x.historyOf? t.method = some bound ∧
      x.heldNow? t.compileId = some (⟨start.pass, t.method⟩, bound) := by
  have hknown : (x.historyOf? t.method).isSome = true := by
    have hany : (tasks.any fun t' => t'.method = t.method) = true :=
      List.any_eq_true.mpr ⟨t, ht, decide_eq_true rfl⟩
    rw [h.known, hany, Bool.or_true]
  obtain ⟨bound, hbound⟩ := Option.isSome_iff_exists.mp hknown
  exact ⟨bound, hbound, heldNow?_eq_some_iff.mpr ⟨h.meant t ht, h.rest.pass_eq.symm, hbound⟩⟩

/-- A number of no task leads nowhere. -/
theorem Filed.heldNow?_eq_none (hstart : start.Begun) (h : start.Filed tasks deopts x)
    {id : UInt64} (hid : ∀ t ∈ tasks, t.compileId ≠ id) : x.heldNow? id = none := by
  cases hheld : x.heldNow? id with
  | none => rfl
  | some held =>
    obtain ⟨o, bound⟩ := held
    obtain ⟨ho, hpass, _⟩ := heldNow?_eq_some_iff.mp hheld
    rw [h.others id hid] at ho
    exact absurd (hpass.trans h.rest.pass_eq) (hstart.owners id o ho)

/-- At most one task of a timeline has a number in the reading. -/
theorem Filed.countP_isNamed_le (hstart : start.Begun) (h : start.Filed tasks deopts x)
    (hdistinct : (tasks.map Task.compileId).Nodup) (id : UInt64) (m : Method) :
    (x.timelineOf m).countP (Task.isNamed id start.pass) ≤ 1 := by
  have hbefore : (start.timelineOf m).countP (Task.isNamed id start.pass) = 0 :=
    List.countP_eq_zero.mpr fun t ht hnamed => hstart.timeline_pass m t ht
      (Task.isNamed_iff.mp hnamed).2
  have hfiled : (((tasks.filter fun t => t.method = m).map
      (Task.filedWith start.pass deopts)).countP (Task.isNamed id start.pass)) ≤
      (tasks.map Task.compileId).count id := by
    rw [List.countP_map, List.count, List.countP_map]
    refine List.filter_sublist.countP_le.trans (Nat.le_of_eq (List.countP_congr fun t _ => ?_))
    simp only [Function.comp_apply, Task.isNamed_iff, beq_iff_eq]
    exact and_iff_left rfl
  have hcount := (foldl_joined_perm ((tasks.filter fun t => t.method = m).map
    (Task.filedWith start.pass deopts)) (start.timelineOf m)).countP_eq (Task.isNamed id start.pass)
  have hone := List.nodup_iff_count_le_one.mp hdistinct id
  rw [h.timeline m, hcount, List.countP_append]
  omega

/-- With one event more, tasks have joined a timeline as if the event had been bound behind all
others. -/
theorem Filed.timeline_concat (hstart : start.Begun) (h : start.Filed tasks deopts x) (d : Deopt)
    (m : Method) :
    ((tasks.filter fun t => t.method = m).map
        (Task.filedWith start.pass (deopts ++ [d]))).foldl joined (start.timelineOf m) =
      (x.timelineOf m).map (d.bindTo start.pass) := by
  have hbefore : (start.timelineOf m).map (d.bindTo start.pass) = start.timelineOf m :=
    Deopt.map_bindTo fun t ht => Bool.eq_false_iff.mpr fun hnamed =>
      hstart.timeline_pass m t ht (Task.isNamed_iff.mp hnamed).2
  have hevent : Task.filedWith start.pass (deopts ++ [d]) =
      d.bindTo start.pass ∘ Task.filedWith start.pass deopts :=
    funext (Task.filedWith_concat start.pass deopts d)
  rw [h.timeline m, map_foldl_joined (Deopt.place_bindTo start.pass d), hbefore, List.map_map,
    hevent]

/-- An event leaves the timelines as they are on which no task has its number. -/
theorem Filed.map_bindTo (hstart : start.Begun) (h : start.Filed tasks deopts x) {d : Deopt}
    {m : Method} (hnone : ∀ t ∈ tasks, t.method = m → t.compileId ≠ d.compileId) :
    (x.timelineOf m).map (d.bindTo start.pass) = x.timelineOf m := by
  have hsame : (tasks.filter fun t => t.method = m).map
      (Task.filedWith start.pass (deopts ++ [d])) =
      (tasks.filter fun t => t.method = m).map (Task.filedWith start.pass deopts) := by
    refine List.map_congr_left fun t ht => ?_
    obtain ⟨hmem, hm⟩ := List.mem_filter.mp ht
    exact Task.filedWith_concat_of_ne _ _ (hnone t hmem (of_decide_eq_true hm))
  rw [← h.timeline_concat hstart, hsame, ← h.timeline m]

/-- Filing an event of a task binds it. -/
theorem Filed.recordDeopt_of_mem (hstart : start.Begun) (h : start.Filed tasks deopts x)
    (hdistinct : (tasks.map Task.compileId).Nodup) {d : Deopt} {t : Task} (ht : t ∈ tasks)
    (hid : t.compileId = d.compileId) : start.Filed tasks (deopts ++ [d]) (x.recordDeopt d) := by
  obtain ⟨bound, hbound, hheld⟩ := h.heldNow?_eq_some ht
  have heq : x.recordDeopt d = x.putHistory t.method (bound.bindDeopt start.pass d) := by
    rw [recordDeopt_eq, ← hid, hheld, h.rest.pass_eq]
  have hchanged : (bound.bindDeopt start.pass d).tasks =
      (x.timelineOf t.method).map (d.bindTo start.pass) := by
    have htimeline : x.timelineOf t.method = bound.tasks := by
      unfold Archive.timelineOf
      rw [hbound]
      rfl
    have hone := h.countP_isNamed_le hstart hdistinct d.compileId t.method
    rw [htimeline] at hone ⊢
    exact MethodHistory.tasks_bindDeopt_eq_map hone
  have hnot : (tasks.all fun t => t.compileId ≠ d.compileId) = false :=
    List.all_eq_false.mpr ⟨t, ht, by simp [hid]⟩
  exact
    { wellKept := wellKept_record h.wellKept (.deopt d) rfl
      tidy := h.tidy.recordDeopt d
      rest := by
        rw [heq]
        exact h.rest.trans ⟨rfl, rfl, rfl, rfl, rfl, rfl, rfl⟩
      timeline := by
        intro m
        rw [h.timeline_concat hstart, heq, timelineOf_of_histories_insert rfl]
        split_ifs with hm
        · rw [hchanged, hm]
        · refine (h.map_bindTo hstart fun t' ht' hm' hid' => hm ?_).symm
          obtain rfl := List.inj_on_of_nodup_map hdistinct ht' ht (hid'.trans hid.symm)
          exact hm'
      known := by
        intro m
        rw [heq, isSome_historyOf?_of_histories_insert rfl, ← h.known m]
        by_cases hm : t.method = m
        · simp [← hm, hbound]
        · simp [hm]
      meant := by
        rw [heq]
        exact h.meant
      others := by
        rw [heq]
        exact h.others
      pending := by
        rw [heq, List.filter_append, List.filter_cons, hnot]
        simp only [Bool.false_eq_true, if_false, List.filter_nil, List.append_nil]
        exact h.pending }

/-- Filing an event of no task lets it wait. -/
theorem Filed.recordDeopt_of_not_mem (hstart : start.Begun) (h : start.Filed tasks deopts x)
    {d : Deopt} (hroom : deopts.length < start.capacity)
    (hid : ∀ t ∈ tasks, t.compileId ≠ d.compileId) :
    start.Filed tasks (deopts ++ [d]) (x.recordDeopt d) := by
  have hspace : x.pending.size < x.capacity := by
    have hsize : x.pending.toList.length ≤ deopts.length := by
      rw [h.pending, List.length_map]
      exact List.length_filter_le _ _
    rw [Array.length_toList] at hsize
    rw [h.tidy.capacity_eq]
    omega
  have heq : x.recordDeopt d = { x with
      pending := x.pending.push (d.compileId, .deopt d)
      pendingCounts := countUp x.pendingCounts d.compileId } := by
    rw [recordDeopt_eq, h.heldNow?_eq_none hstart hid]
    exact hold_of_room hspace d.compileId (.deopt d)
  have hall : (tasks.all fun t => t.compileId ≠ d.compileId) = true :=
    List.all_eq_true.mpr fun t ht => decide_eq_true (hid t ht)
  exact
    { wellKept := wellKept_record h.wellKept (.deopt d) rfl
      tidy := h.tidy.recordDeopt d
      rest := by
        rw [heq]
        exact h.rest.trans ⟨rfl, rfl, rfl, rfl, rfl, rfl, rfl⟩
      timeline := by
        intro m
        rw [h.timeline_concat hstart, h.map_bindTo hstart fun t ht _ => hid t ht, heq]
      known := by
        rw [heq]
        exact h.known
      meant := by
        rw [heq]
        exact h.meant
      others := by
        rw [heq]
        exact h.others
      pending := by
        rw [heq, List.filter_append, List.filter_cons, hall, Array.toList_push, h.pending]
        simp }

/-- Filing an event. -/
theorem Filed.recordDeopt (hstart : start.Begun) (h : start.Filed tasks deopts x)
    (hdistinct : (tasks.map Task.compileId).Nodup) {d : Deopt}
    (hroom : deopts.length < start.capacity) :
    start.Filed tasks (deopts ++ [d]) (x.recordDeopt d) := by
  by_cases hsome : ∃ t ∈ tasks, t.compileId = d.compileId
  · obtain ⟨t, ht, hid⟩ := hsome
    exact h.recordDeopt_of_mem hstart hdistinct ht hid
  · exact h.recordDeopt_of_not_mem hstart hroom fun t ht hid => hsome ⟨t, ht, hid⟩

/-- Filing tasks of new numbers and events in any mixture. By induction on what comes. -/
theorem Filed.foldl_record (hstart : start.Begun) (h : start.Filed tasks deopts x)
    {items : List Item} (honly : ∀ item ∈ items, (∃ t, item = .task t) ∨ ∃ d, item = .deopt d)
    (hdistinct : ((tasks ++ tasksOf items).map Task.compileId).Nodup)
    (hroom : (deopts ++ deoptsOf items).length ≤ start.capacity) :
    start.Filed (tasks ++ tasksOf items) (deopts ++ deoptsOf items)
      (items.foldl record x) := by
  induction items generalizing tasks deopts x with
  | nil =>
    have hnone : deoptsOf [] = [] := rfl
    rw [tasksOf_nil, hnone, List.append_nil, List.append_nil]
    exact h
  | cons item rest ih =>
    obtain ⟨hfirst, hrest⟩ := List.forall_mem_cons.mp honly
    rw [List.foldl_cons]
    rcases hfirst with ⟨t, rfl⟩ | ⟨d, rfl⟩
    · have htasks : tasks ++ tasksOf (.task t :: rest) = tasks ++ [t] ++ tasksOf rest :=
        List.append_cons tasks t (tasksOf rest)
      rw [htasks] at hdistinct ⊢
      have hnew : ∀ t' ∈ tasks, t'.compileId ≠ t.compileId := by
        rw [List.map_append, List.map_append] at hdistinct
        have hapart := List.disjoint_of_nodup_append hdistinct.of_append_left
        intro t' ht' hid
        exact hapart (List.mem_map_of_mem ht') (by simp [hid])
      exact ih (h.recordTask hstart hnew) hrest hdistinct hroom
    · have hdeopts : deopts ++ deoptsOf (.deopt d :: rest) = deopts ++ [d] ++ deoptsOf rest :=
        List.append_cons deopts d (deoptsOf rest)
      rw [hdeopts] at hroom ⊢
      have hspace : deopts.length < start.capacity := by
        simp only [List.length_append, List.length_singleton] at hroom
        omega
      have hapart : (tasks.map Task.compileId).Nodup := by
        rw [List.map_append] at hdistinct
        exact hdistinct.of_append_left
      exact ih (h.recordDeopt hstart hapart hspace) hrest hdistinct hroom

end Index

end CompileLog

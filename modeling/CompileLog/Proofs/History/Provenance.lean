import CompileLog.Proofs.Collect.Handover
import CompileLog.Proofs.History.Conservation
import CompileLog.Proofs.History.Pending
import CompileLog.Proofs.History.Tasks
import Mathlib.Data.List.Flatten

/-!
# Where attached events come from

A task bears the number of the reading that filed it. While a reading is filed, only its own tasks
take events: those that it yields, and those that waited when it began under the number of a task
that it files. What is attached to tasks of other readings stays as it is.
-/

namespace CompileLog

open Collect

/-! ### Events of one reading -/

/-- The events attached to a task, if one reading filed it. -/
def Task.deoptsIn (pass : Nat) (t : Task) : List Deopt := if t.pass = pass then t.deopts else []

/-- The events attached to tasks of a history that one reading filed. -/
def MethodHistory.attachedIn (pass : Nat) (h : MethodHistory) : List Deopt :=
  h.tasks.flatMap (Task.deoptsIn pass)

/-- The events attached to tasks that one reading filed. -/
def Archive.attachedIn (a : Archive) (pass : Nat) : List Deopt :=
  a.tasks.flatMap (Task.deoptsIn pass)

/-- The events that wait under some of the numbers. -/
def Index.waitingFor (x : Index) (among : UInt64 → Bool) : List Deopt :=
  (x.pending.toList.filter fun p => among p.1).flatMap fun p => p.2.deopts

/-- The events attached to tasks of one reading are those in all histories. -/
theorem Archive.attachedIn_eq (a : Archive) (pass : Nat) :
    a.attachedIn pass = a.histories.values.flatMap (MethodHistory.attachedIn pass) := by
  unfold attachedIn tasks allHistories KeyMap.values MethodHistory.attachedIn
  rw [List.flatMap_assoc]

/-- Where the same is filed, the same is attached. -/
theorem SameFiled.attachedIn_eq {a b : Archive} (h : SameFiled a b) (pass : Nat) :
    a.attachedIn pass = b.attachedIn pass := by
  rw [a.attachedIn_eq, b.attachedIn_eq, h.histories_eq]

/-- Before a reading begins, nothing is attached to its tasks. -/
theorem Archive.attachedIn_of_forall_le {a : Archive}
    (h : ∀ m ∈ a.histories.values, ∀ t ∈ m.tasks, t.pass ≤ a.pass) {pass : Nat}
    (hpass : a.pass < pass) : a.attachedIn pass = [] := by
  rw [a.attachedIn_eq, List.flatMap_eq_nil_iff]
  intro m hm
  unfold MethodHistory.attachedIn
  rw [List.flatMap_eq_nil_iff]
  intro t ht
  have hle := h m hm t ht
  exact if_neg (by omega)

/-! ### How a history takes events -/

namespace MethodHistory

/-- A task that is added brings its events to those of its reading. -/
theorem attachedIn_insert (h : MethodHistory) (t : Task) (duplicate : Bool) (pass : Nat) :
    ((h.insert t duplicate).attachedIn pass).Perm (t.deoptsIn pass ++ h.attachedIn pass) := by
  unfold attachedIn
  rw [tasks_insert]
  exact (List.perm_insertIdx t h.tasks (h.positionOf_le t)).flatMap_right _

/-- A remark brings its event to the reading of its task at most. -/
theorem attachedIn_addRemark (h : MethodHistory) (id : UInt64) (pass : Nat) (r : Remark) :
    ((h.modifyTask id pass fun t => t.addRemark r).attachedIn pass).Subperm
      (r.deopts ++ h.attachedIn pass) := by
  unfold attachedIn
  rcases h.modifyTask_cases id pass (fun t => t.addRemark r) with
    ⟨_, hsame⟩ | ⟨before, t, behind, htasks, hnamed, hchanged⟩
  · rw [hsame]
    exact (List.sublist_append_right _ _).subperm
  · have hpass := (Task.isNamed_iff.mp hnamed).2
    have hpass' : (t.addRemark r).pass = pass := (t.addRemark_keeps r).2.trans hpass
    rw [hchanged, htasks]
    refine List.Perm.subperm (List.perm_iff_count.mpr fun d => ?_)
    simp only [List.flatMap_append, List.flatMap_cons, Task.deoptsIn, hpass, hpass', if_true,
      t.deopts_addRemark r, List.count_append]
    omega

/-- A remark brings nothing to another reading. -/
theorem attachedIn_addRemark_of_ne (h : MethodHistory) (id : UInt64) {pass pass' : Nat}
    (hne : pass' ≠ pass) (r : Remark) :
    (h.modifyTask id pass' fun t => t.addRemark r).attachedIn pass = h.attachedIn pass := by
  unfold attachedIn
  rcases h.modifyTask_cases id pass' (fun t => t.addRemark r) with
    ⟨_, hsame⟩ | ⟨before, t, behind, htasks, hnamed, hchanged⟩
  · rw [hsame]
  · have hpass := (Task.isNamed_iff.mp hnamed).2
    have hbefore : t.deoptsIn pass = [] := if_neg (by omega)
    have hafter : (t.addRemark r).deoptsIn pass = [] := by
      have hpass' := (t.addRemark_keeps r).2
      exact if_neg (by omega)
    rw [hchanged, htasks, List.flatMap_append, List.flatMap_append, List.flatMap_cons,
      List.flatMap_cons, hbefore, hafter]

end MethodHistory

/-! ### Other readings -/

namespace Index

/-- Setting a history under which the events of one reading are the same leaves all of these as they
are. -/
theorem attachedIn_of_histories_insert {x y : Index} {key : Method} {h : MethodHistory} {pass : Nat}
    (hhistories : y.histories = x.histories.insert key h)
    (hattached : (h.attachedIn pass).Perm
      ((x.histories.get? key).elim [] (MethodHistory.attachedIn pass))) :
    (y.attachedIn pass).Perm (x.attachedIn pass) := by
  have hnone : (h.attachedIn pass).Perm
      ([] ++ (x.histories.get? key).elim [] (MethodHistory.attachedIn pass)) := hattached
  rw [Archive.attachedIn_eq, Archive.attachedIn_eq, hhistories]
  exact KeyMap.flatMap_values_insert_perm hnone

/-- The history that a task joins has its events of one reading, or is empty. -/
theorem attachedIn_historyFor (x : Index) (t : Task) (pass : Nat) :
    (x.historyFor t).attachedIn pass =
      (x.histories.get? t.method).elim [] (MethodHistory.attachedIn pass) :=
  x.apply_historyFor (MethodHistory.attachedIn pass) t

end Index

/-- Whatever later readings file, what is attached to the tasks of one reading stays. -/
theorem ArchiveInvariant.attachedIn (pass : Nat) (attached : List Deopt) :
    ArchiveInvariant (fun _ => True) fun a =>
      pass < a.pass ∧ (a.attachedIn pass).Perm attached where
  congr hsame h := by
    rw [hsame.pass_eq, hsame.attachedIn_eq]
    exact h
  beginPass x h := ⟨Nat.lt_succ_of_lt h.1, h.2⟩
  recordTask x t _ h := by
    have hsame := x.sameFiled_takePending t.compileId
    have hother : (x.completed t).deoptsIn pass = [] := by
      have hpass := (x.completed_named t).2
      exact if_neg (by omega)
    refine ⟨(x.pass_recordTask t).symm ▸ h.1, List.Perm.trans ?_ h.2⟩
    rw [x.recordTask_eq t, ← hsame.attachedIn_eq pass]
    refine Index.attachedIn_of_histories_insert
      (congrArg (fun m => KeyMap.insert m (x.completed t).method _) hsame.histories_eq.symm) ?_
    have hjoined := MethodHistory.attachedIn_insert (x.historyFor (x.completed t)) (x.completed t)
      (x.owners.get? t.compileId).isSome pass
    rwa [hother, List.nil_append, x.attachedIn_historyFor, ← hsame.histories_eq] at hjoined
  recordDeopt x d h := by
    refine ⟨(x.pass_recordDeopt d).symm ▸ h.1, List.Perm.trans ?_ h.2⟩
    rcases x.recordDeopt_cases d with ⟨o, bound, _, _, hfound, heq⟩ | heq
    · rw [heq]
      refine Index.attachedIn_of_histories_insert rfl ?_
      have hkept := bound.attachedIn_addRemark_of_ne d.compileId (Nat.ne_of_gt h.1) (.deopt d)
      unfold MethodHistory.attachedIn at hkept ⊢
      rw [hfound, MethodHistory.tasks_bindDeopt, hkept]
      exact .refl _
    · rw [heq, (x.sameFiled_hold _ _).attachedIn_eq]
  recordRemark x id r _ h := by
    refine ⟨(x.pass_recordRemark id r).symm ▸ h.1, List.Perm.trans ?_ h.2⟩
    rcases x.recordRemark_cases id r with ⟨o, changed, _, _, hfound, heq⟩ | heq
    · rw [heq]
      refine Index.attachedIn_of_histories_insert rfl ?_
      rw [hfound, changed.attachedIn_addRemark_of_ne id (Nat.ne_of_gt h.1) r]
      exact .refl _
    · rw [heq, (x.sameFiled_hold _ _).attachedIn_eq]

/-! ### The running reading -/

namespace Index

/-- What is attached to tasks of the running reading, or waits under one of some numbers. -/
def reach (x : Index) (among : UInt64 → Bool) : List Deopt :=
  x.attachedIn x.pass ++ x.waitingFor among

/-- A remark that is held brings its event at most to those that wait. -/
theorem waitingFor_hold (x : Index) (id : UInt64) (r : Remark) (among : UInt64 → Bool) :
    ((x.hold id r).waitingFor among).Subperm (r.deopts ++ x.waitingFor among) := by
  have hfilter := (x.sublist_pending_hold id r).filter fun p => among p.1
  have hheld : ((x.hold id r).waitingFor among).Subperm
      (((x.pending.toList ++ [(id, r)]).filter fun p => among p.1).flatMap fun p => p.2.deopts) :=
    (hfilter.flatMap _).subperm
  refine hheld.trans ?_
  rw [List.filter_append, List.flatMap_append]
  refine List.perm_append_comm.subperm.trans ?_
  refine (List.Sublist.append_right ?_ _).subperm
  cases hid : among id with
  | true => simp [hid]
  | false => simp [hid]

/-- What waits for a task moves from what waits under a number to the task. -/
theorem waitingFor_takePending (x : Index) {id : UInt64} {among : UInt64 → Bool}
    (hid : among id = true) :
    ((x.takePending id).2.flatMap Remark.deopts ++ (x.takePending id).1.waitingFor among).Perm
      (x.waitingFor among) := by
  unfold takePending
  split
  · exact .refl _
  · have hparts := List.filter_append_perm (fun p : UInt64 × Remark => decide (p.1 = id))
      (x.pending.toList.filter fun p => among p.1)
    have htaken : (x.pending.toList.filter fun p => among p.1).filter (fun p => p.1 = id) =
        x.pending.toList.filter fun p => p.1 = id := by
      rw [List.filter_filter]
      refine List.filter_congr fun p _ => ?_
      by_cases hp : p.1 = id
      · simp [hp, hid]
      · simp [hp]
    have hleft : (x.pending.toList.filter fun p => among p.1).filter (fun p => !decide (p.1 = id)) =
        (x.pending.toList.filter fun p => p.1 ≠ id).filter fun p => among p.1 := by
      rw [List.filter_filter, List.filter_filter]
      refine List.filter_congr fun p _ => ?_
      rw [Bool.and_comm, decide_not]
    rw [htaken, hleft] at hparts
    have hflat := hparts.flatMap_right fun p => p.2.deopts
    rw [List.flatMap_append] at hflat
    simpa only [waitingFor, Array.toList_map, Array.toList_filter, List.flatMap_map] using hflat

/-! ### Filing -/

/-- Setting a history that takes some events of the running reading brings them within reach. -/
theorem reach_of_histories_insert {x y : Index} {key : Method} {h : MethodHistory}
    {among : UInt64 → Bool} (brought : List Deopt)
    (hhistories : y.histories = x.histories.insert key h) (hpass : y.pass = x.pass)
    (hattached : (h.attachedIn x.pass).Subperm
      (brought ++ (x.histories.get? key).elim [] (MethodHistory.attachedIn x.pass)))
    (hwaiting : y.waitingFor among = x.waitingFor among) :
    (y.reach among).Subperm (brought ++ x.reach among) := by
  have hexchanged := KeyMap.flatMap_values_insert x.histories key h
    (MethodHistory.attachedIn x.pass)
  unfold reach
  rw [Archive.attachedIn_eq, Archive.attachedIn_eq, hhistories, hpass, hwaiting]
  refine List.subperm_ext_iff.mpr fun d _ => ?_
  have hcount := List.perm_iff_count.mp hexchanged d
  have hcount' := hattached.count_le d
  simp only [List.count_append] at hcount hcount' ⊢
  omega

/-- A remark that is held brings its event within reach at most. -/
theorem reach_hold (x : Index) (id : UInt64) (r : Remark) (among : UInt64 → Bool) :
    ((x.hold id r).reach among).Subperm (r.deopts ++ x.reach among) := by
  have hsame := x.sameFiled_hold id r
  have hheld := x.waitingFor_hold id r among
  unfold reach
  rw [hsame.pass_eq, hsame.attachedIn_eq]
  refine List.subperm_ext_iff.mpr fun d _ => ?_
  have hcount := hheld.count_le d
  simp only [List.count_append] at hcount ⊢
  omega

/-- Filing a task of one of the numbers brings its events within reach, and no more. -/
theorem reach_recordTask (x : Index) {t : Task} {among : UInt64 → Bool}
    (ht : among t.compileId = true) :
    ((x.recordTask t).reach among).Subperm (t.deopts ++ x.reach among) := by
  have hsame := x.sameFiled_takePending t.compileId
  have hmoved := x.waitingFor_takePending ht
  have hcarried : (x.completed t).deopts =
      t.deopts ++ (x.takePending t.compileId).2.flatMap Remark.deopts :=
    Task.deopts_foldl_addRemark _ _
  have hnow : (x.completed t).deoptsIn x.pass = (x.completed t).deopts :=
    if_pos (x.completed_named t).2
  have hjoined := MethodHistory.attachedIn_insert (x.historyFor (x.completed t)) (x.completed t)
    (x.owners.get? t.compileId).isSome x.pass
  have hexchanged := KeyMap.flatMap_values_insert x.histories (x.completed t).method
    ((x.historyFor (x.completed t)).insert (x.completed t) (x.owners.get? t.compileId).isSome)
    (MethodHistory.attachedIn x.pass)
  rw [x.attachedIn_historyFor, hnow, hcarried] at hjoined
  have hwaiting : (x.recordTask t).waitingFor among =
      (x.takePending t.compileId).1.waitingFor among := by
    rw [x.recordTask_eq t]
    rfl
  unfold reach
  rw [Archive.attachedIn_eq, Archive.attachedIn_eq, hwaiting, x.pass_recordTask t, x.recordTask_eq t]
  refine List.subperm_ext_iff.mpr fun d _ => ?_
  have hcount := List.perm_iff_count.mp hmoved d
  have hcount' := List.perm_iff_count.mp hjoined d
  have hcount'' := List.perm_iff_count.mp hexchanged d
  simp only [List.count_append] at hcount hcount' hcount'' ⊢
  omega

/-- Filing an event brings it within reach at most. -/
theorem reach_recordDeopt (x : Index) (d : Deopt) (among : UInt64 → Bool) :
    ((x.recordDeopt d).reach among).Subperm (d :: x.reach among) := by
  rcases x.recordDeopt_cases d with ⟨o, bound, _, _, hfound, heq⟩ | heq
  · rw [heq]
    have htaken := bound.attachedIn_addRemark d.compileId x.pass (.deopt d)
    refine reach_of_histories_insert [d] rfl rfl ?_ rfl
    unfold MethodHistory.attachedIn at htaken ⊢
    rw [hfound, MethodHistory.tasks_bindDeopt]
    exact htaken
  · rw [heq]
    exact x.reach_hold d.compileId (.deopt d) among

/-- Filing installed code or a listing brings no event within reach. -/
theorem reach_recordRemark (x : Index) (id : UInt64) {r : Remark} (hr : r.deopts = [])
    (among : UInt64 → Bool) : ((x.recordRemark id r).reach among).Subperm (x.reach among) := by
  rcases x.recordRemark_cases id r with ⟨o, changed, _, _, hfound, heq⟩ | heq
  · rw [heq]
    have htaken := changed.attachedIn_addRemark id x.pass r
    refine reach_of_histories_insert [] rfl rfl ?_ rfl
    rw [hr] at htaken
    rw [hfound]
    exact htaken
  · have hheld := x.reach_hold id r among
    rw [hr] at hheld
    rw [heq]
    exact hheld

/-- Filing what a log yields brings its events within reach, and no more, if its task has one of the
numbers. -/
theorem reach_record (x : Index) {item : Item} {among : UInt64 → Bool}
    (h : ∀ t ∈ tasksOf [item], among t.compileId = true) :
    ((x.record item).reach among).Subperm (item.deopts ++ x.reach among) := by
  cases item with
  | task t => exact x.reach_recordTask (h t (List.mem_singleton.mpr rfl))
  | deopt d => exact x.reach_recordDeopt d among
  | lateNative id n => exact x.reach_recordRemark id rfl among
  | lateListing id l => exact x.reach_recordRemark id rfl among
  | orphanListing l => exact .refl _
  | codeCache sample => exact .refl _

/-- While a reading is filed, what comes within reach is what it yields. By induction on what it
yields. -/
theorem reach_foldl_record (items : List Item) (x : Index) {among : UInt64 → Bool}
    (h : ∀ t ∈ tasksOf items, among t.compileId = true) :
    ((items.foldl record x).reach among).Subperm
      (items.flatMap Item.deopts ++ x.reach among) := by
  induction items generalizing x with
  | nil => exact .refl _
  | cons item rest ih =>
    have hsplit : tasksOf (item :: rest) = tasksOf [item] ++ tasksOf rest :=
      tasksOf_append [item] rest
    rw [hsplit, List.forall_mem_append] at h
    have hfirst := x.reach_record h.1
    have hrest := ih (x.record item) h.2
    refine List.subperm_ext_iff.mpr fun d _ => ?_
    have hcount := hfirst.count_le d
    have hcount' := hrest.count_le d
    simp only [List.foldl_cons, List.flatMap_cons, List.count_append] at hcount hcount' ⊢
    omega

end Index

end CompileLog

import CompileLog.Proofs.History.Owners

/-!
# What holds of every filed task

A task is filed with the number of the reading, and later only remarks are added to it. So what
holds of the tasks that are filed, whatever their reading and whatever the remarks, holds of every
task of an archive, and each of them bears the number of a reading that has begun. The same goes
for the tasks of a snapshot.
-/

namespace CompileLog

/-! ### Filed tasks -/

/-- What holds of all tasks of a history holds of all once one is changed in a way that keeps it. -/
theorem MethodHistory.forall_tasks_modifyTask {Q : Task → Prop} {h : MethodHistory}
    (hall : ∀ t ∈ h.tasks, Q t) (id : UInt64) (pass : Nat) {f : Task → Task}
    (hf : ∀ t, Q t → Q (f t)) : ∀ t ∈ (h.modifyTask id pass f).tasks, Q t := by
  unfold modifyTask
  split
  · exact hall
  · next i _ =>
    intro t ht
    obtain ⟨j, hj⟩ := List.mem_iff_getElem?.mp ht
    rw [List.getElem?_modify] at hj
    obtain ⟨old, hold, rfl⟩ := Option.map_eq_some_iff.mp hj
    have hkept := hall old (List.mem_of_getElem? hold)
    split
    · exact hf old hkept
    · exact hkept

/-- What holds of all tasks of a history holds of all once another joins of which it holds. -/
theorem MethodHistory.forall_tasks_insert {Q : Task → Prop} {h : MethodHistory}
    (hall : ∀ t ∈ h.tasks, Q t) {t : Task} (ht : Q t) (duplicate : Bool) :
    ∀ t' ∈ (h.insert t duplicate).tasks, Q t' := by
  rw [tasks_insert]
  intro t' ht'
  rcases List.mem_cons.mp ((List.perm_insertIdx t h.tasks (h.positionOf_le t)).subset ht') with
    rfl | hbefore
  · exact ht
  · exact hall t' hbefore

/-- What holds of a task, and is kept where a remark is added, holds of it once remarks are. -/
theorem Task.foldl_addRemark_of {Q : Task → Prop} (hremark : ∀ t r, Q t → Q (t.addRemark r))
    {t : Task} (ht : Q t) (remarks : List Remark) : Q (remarks.foldl addRemark t) :=
  List.foldlRecOn remarks _ ht fun t ht r _ => hremark t r ht

/-- Filing a task begins no reading. -/
theorem Index.pass_recordTask (x : Index) (t : Task) : (x.recordTask t).pass = x.pass := by
  rw [x.recordTask_eq t]
  exact (x.sameFiled_takePending t.compileId).pass_eq

/-- Filing an event begins no reading. -/
theorem Index.pass_recordDeopt (x : Index) (d : Deopt) : (x.recordDeopt d).pass = x.pass := by
  rcases x.recordDeopt_cases d with ⟨_, _, _, _, _, heq⟩ | heq
  · rw [heq]
    rfl
  · rw [heq]
    exact (x.sameFiled_hold _ _).pass_eq

/-- Filing installed code or a listing begins no reading. -/
theorem Index.pass_recordRemark (x : Index) (id : UInt64) (r : Remark) :
    (x.recordRemark id r).pass = x.pass := by
  rcases x.recordRemark_cases id r with ⟨_, _, _, _, _, heq⟩ | heq
  · rw [heq]
    rfl
  · rw [heq]
    exact (x.sameFiled_hold _ _).pass_eq

/-- Filing what a log yields begins no reading. -/
theorem Index.pass_record (x : Index) (item : Collect.Item) : (x.record item).pass = x.pass := by
  cases item with
  | task t => exact x.pass_recordTask t
  | deopt d => exact x.pass_recordDeopt d
  | lateNative id n => exact x.pass_recordRemark id _
  | lateListing id l => exact x.pass_recordRemark id _
  | orphanListing l => rfl
  | codeCache sample => rfl

/-- Filing what a log yields is part of one reading. By induction on what it yields. -/
theorem Index.pass_foldl_record (items : List Collect.Item) (x : Index) :
    (items.foldl record x).pass = x.pass := by
  induction items generalizing x with
  | nil => rfl
  | cons item rest ih => exact (ih (x.record item)).trans (x.pass_record item)

/-- Nothing that is filed lets the number of the last reading fall. -/
theorem ArchiveInvariant.pass_ge (pass : Nat) :
    ArchiveInvariant (fun _ => True) fun a => pass ≤ a.pass where
  congr hsame h := hsame.pass_eq ▸ h
  beginPass _ h := Nat.le_succ_of_le h
  recordTask x t _ h := (x.pass_recordTask t).symm ▸ h
  recordDeopt x d h := (x.pass_recordDeopt d).symm ▸ h
  recordRemark x id r _ h := (x.pass_recordRemark id r).symm ▸ h

/-- So it does not fall, whatever is done. -/
theorem Store.pass_le_run (s : Store) (acts : List Act) :
    s.archive.pass ≤ (s.run acts).archive.pass :=
  (ArchiveInvariant.pass_ge s.archive.pass).run (Nat.le_refl _) fun a _ => a.files_true

/-- Filing an event leaves what numbers mean alone. -/
theorem Index.owners_recordDeopt (x : Index) (d : Deopt) :
    (x.recordDeopt d).owners = x.owners := by
  rcases x.recordDeopt_cases d with ⟨_, _, _, _, _, heq⟩ | heq
  · rw [heq]
    rfl
  · rw [heq]
    exact (x.sameFiled_hold _ _).owners_eq

/-- Filing installed code or a listing leaves what numbers mean alone. -/
theorem Index.owners_recordRemark (x : Index) (id : UInt64) (r : Remark) :
    (x.recordRemark id r).owners = x.owners := by
  rcases x.recordRemark_cases id r with ⟨_, _, _, _, _, heq⟩ | heq
  · rw [heq]
    rfl
  · rw [heq]
    exact (x.sameFiled_hold _ _).owners_eq

/-- What holds of tasks, whatever reading files them and whatever remarks are added, holds of all
filed tasks if it holds of those that are filed, and each bears the number of a reading that has
begun. -/
theorem ArchiveInvariant.of_tasks {Q : Task → Prop} (hpass : ∀ t n, Q t → Q { t with pass := n })
    (hremark : ∀ t r, Q t → Q (t.addRemark r)) :
    ArchiveInvariant Q fun a =>
      ∀ m ∈ a.histories.values, ∀ t ∈ m.tasks, Q t ∧ t.pass ≤ a.pass := by
  have hadded : ∀ (n : Nat) t r, Q t ∧ t.pass ≤ n → Q (t.addRemark r) ∧ (t.addRemark r).pass ≤ n :=
    fun n t r h => ⟨hremark t r h.1, (t.addRemark_keeps r).2 ▸ h.2⟩
  refine ⟨?_, ?_, ?_, ?_, ?_⟩
  · intro a b hsame h
    rw [hsame.histories_eq, hsame.pass_eq]
    exact h
  · intro x h m hm t ht
    obtain ⟨hq, hle⟩ := h m hm t ht
    exact ⟨hq, Nat.le_succ_of_le hle⟩
  · intro x t ht h
    rw [x.pass_recordTask t]
    refine Index.forall_recordTask h (fun m t' ht' => absurd ht' List.not_mem_nil) t
      fun m duplicate hm => m.forall_tasks_insert hm ⟨?_, ?_⟩ duplicate
    · exact Task.foldl_addRemark_of hremark (hpass t x.pass ht) _
    · exact Nat.le_of_eq (x.completed_named t).2
  · intro x d h
    rw [x.pass_recordDeopt d]
    refine Index.forall_recordDeopt h (fun m d hm => ?_) d
    rw [m.tasks_bindDeopt]
    exact m.forall_tasks_modifyTask hm _ _ fun t => hadded x.pass t _
  · intro x id r _ h
    rw [x.pass_recordRemark id r]
    exact Index.forall_recordRemark h fun _ m _ _ _ hm =>
      m.forall_tasks_modifyTask hm _ _ fun t => hadded x.pass t r

/-! ### Stored tasks -/

/-- Once tasks are noted, the last reading is that of none of them or a later one. By induction on
the tasks. -/
theorem Archive.pass_le_foldl_noteOwner (method : Method) (tasks : List Task) (a : Archive) :
    a.pass ≤ (tasks.foldl (noteOwner method) a).pass ∧
      ∀ t ∈ tasks, t.pass ≤ (tasks.foldl (noteOwner method) a).pass := by
  induction tasks generalizing a with
  | nil => exact ⟨Nat.le_refl _, fun t ht => absurd ht List.not_mem_nil⟩
  | cons t rest ih =>
    obtain ⟨hbefore, hrest⟩ := ih (a.noteOwner method t)
    have hfirst : max a.pass t.pass ≤ (rest.foldl (noteOwner method) (a.noteOwner method t)).pass :=
      hbefore
    refine ⟨Nat.le_trans (Nat.le_max_left _ _) hfirst, fun t' ht' => ?_⟩
    rcases List.mem_cons.mp ht' with rfl | ht'
    · exact Nat.le_trans (Nat.le_max_right _ _) hfirst
    · exact hrest t' ht'

/-- What holds of all stored tasks holds of all tasks of the archive, and each bears the number of
a reading that has begun. By induction on the stored histories. -/
theorem Snapshot.forall_tasks_toArchive {Q : Task → Prop} (s : Snapshot)
    (h : ∀ m ∈ s.histories, ∀ t ∈ m.tasks, Q t) :
    ∀ m ∈ s.toArchive.histories.values, ∀ t ∈ m.tasks, Q t ∧ t.pass ≤ s.toArchive.pass := by
  unfold toArchive
  refine List.foldlRecOn
    (motive := fun a : Archive =>
      ∀ m ∈ a.histories.values, ∀ t ∈ m.tasks, Q t ∧ t.pass ≤ a.pass)
    s.histories _ (by simp [Archive.empty]) ?_
  intro a ha stored hstored m hm t ht
  obtain ⟨hbefore, hadded⟩ := Archive.pass_le_foldl_noteOwner stored.method stored.tasks a
  rw [Archive.histories_addHistory] at hm
  rcases KeyMap.mem_values_insert hm with rfl | hm
  · exact ⟨h stored hstored t ht, hadded t ht⟩
  · obtain ⟨hq, hle⟩ := ha m hm t ht
    exact ⟨hq, Nat.le_trans hle hbefore⟩

end CompileLog

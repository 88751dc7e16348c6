import CompileLog.Proofs.History.Reload
import CompileLog.Proofs.History.Tasks

/-!
# What numbers mean after a reload

A snapshot does not hold what task numbers mean. Where it is loaded, that is noted anew from its
tasks, method by method: the last reading that used a number is found again, but among several tasks
with the number in that reading it is the one of the first method, and no longer the one that was
filed first. Where only one method has such tasks, the number means the same task as before.
-/

namespace CompileLog

/-! ### Known numbers -/

/-- The number of a task is known: to some reading that has begun, and no earlier one than the
task's own. -/
def Archive.Knows (a : Archive) (t : Task) : Prop :=
  ∃ o, a.owners.get? t.compileId = some o ∧ t.pass ≤ o.pass ∧ o.pass ≤ a.pass

/-- The numbers of all tasks are known. -/
def Archive.Numbered (a : Archive) : Prop := ∀ h ∈ a.histories.values, ∀ t ∈ h.tasks, a.Knows t

namespace Archive.Knows

/-- What is known depends on the number and the reading of the task alone. -/
theorem of_named {a : Archive} {t t' : Task} (h : a.Knows t) (hid : t'.compileId = t.compileId)
    (hpass : t'.pass = t.pass) : a.Knows t' := by
  obtain ⟨o, howner, hle, hbegun⟩ := h
  exact ⟨o, hid ▸ howner, hpass ▸ hle, hbegun⟩

/-- A remark leaves the number known. -/
theorem addRemark {a : Archive} {t : Task} (h : a.Knows t) (r : Remark) :
    a.Knows (t.addRemark r) :=
  h.of_named (t.addRemark_keeps r).1 (t.addRemark_keeps r).2

/-- Where the same is filed, the same is known. -/
theorem congr {a b : Archive} {t : Task} (h : a.Knows t) (howners : b.owners = a.owners)
    (hpass : b.pass = a.pass) : b.Knows t := by
  unfold Knows
  rw [howners, hpass]
  exact h

/-- The number of a task that is filed is known. -/
theorem completed (x : Index) (t : Task) :
    (x.recordTask t).toArchive.Knows (x.completed t) := by
  obtain ⟨hid, hpass⟩ := x.completed_named t
  unfold Knows
  rw [hid, hpass, x.pass_recordTask t, x.recordTask_eq t]
  simp only
  split_ifs with hnow
  · obtain ⟨o, howner, hold⟩ := (Option.any_eq_true _ _).mp hnow
    have hown : o.pass = x.pass := of_decide_eq_true hold
    exact ⟨o, howner, by omega, by omega⟩
  · exact ⟨⟨x.pass, (x.completed t).method⟩, by rw [KeyMap.get?_insert, if_pos rfl],
      Nat.le_refl _, Nat.le_refl _⟩

/-- Filing a task leaves the numbers of all others known. -/
theorem recordTask {x : Index} {t' : Task} (h : x.toArchive.Knows t') (t : Task) :
    (x.recordTask t).toArchive.Knows t' := by
  obtain ⟨o, howner, hle, hbegun⟩ := h
  unfold Knows
  rw [x.pass_recordTask t, x.recordTask_eq t]
  simp only
  split_ifs with hnow
  · exact ⟨o, howner, hle, hbegun⟩
  · rw [KeyMap.get?_insert]
    by_cases hid : t.compileId = t'.compileId
    · have hle' : t'.pass ≤ x.pass := Nat.le_trans hle hbegun
      rw [if_pos hid]
      exact ⟨_, rfl, hle', Nat.le_refl _⟩
    · rw [if_neg hid]
      exact ⟨o, howner, hle, hbegun⟩

end Archive.Knows

/-- An archive that holds nothing knows the numbers of all its tasks. -/
theorem Archive.Numbered.empty : Archive.empty.Numbered := by
  intro h hmem
  cases hmem

/-- No act leaves a task with a number that is not known. -/
theorem Archive.Numbered.archiveInvariant :
    ArchiveInvariant (fun _ => True) Archive.Numbered where
  congr hsame h := by
    unfold Numbered
    rw [hsame.histories_eq]
    exact fun m hm t ht => (h m hm t ht).congr hsame.owners_eq hsame.pass_eq
  beginPass x h m hm t ht := by
    obtain ⟨o, howner, hle, hbegun⟩ := h m hm t ht
    exact ⟨o, howner, hle, Nat.le_succ_of_le hbegun⟩
  recordTask x t _ h := by
    have hothers : ∀ m ∈ x.histories.values, ∀ t' ∈ m.tasks, (x.recordTask t).toArchive.Knows t' :=
      fun m hm t' ht' => (h m hm t' ht').recordTask t
    exact Index.forall_recordTask hothers (fun m t' ht' => absurd ht' List.not_mem_nil) t
      fun m duplicate hm => m.forall_tasks_insert hm (.completed x t) duplicate
  recordDeopt x d h := by
    have hknown : ∀ m ∈ x.histories.values, ∀ t ∈ m.tasks, (x.recordDeopt d).toArchive.Knows t :=
      fun m hm t ht => (h m hm t ht).congr (x.owners_recordDeopt d) (x.pass_recordDeopt d)
    refine Index.forall_recordDeopt hknown (fun m d' hm => ?_) d
    rw [m.tasks_bindDeopt]
    exact m.forall_tasks_modifyTask hm _ _ fun t ht => ht.addRemark _
  recordRemark x id r _ h := by
    have hknown : ∀ m ∈ x.histories.values, ∀ t ∈ m.tasks,
        (x.recordRemark id r).toArchive.Knows t := fun m hm t ht =>
      (h m hm t ht).congr (x.owners_recordRemark id r) (x.pass_recordRemark id r)
    exact Index.forall_recordRemark hknown fun _ m _ _ _ hm =>
      m.forall_tasks_modifyTask hm _ _ fun t ht => ht.addRemark r

/-! ### Noting stored tasks -/

/-- What an archive knows of numbers is what tasks tell that were noted one after the other, each
with the method of its history: a number means the last reading of a task with it, and there the
first such task. -/
structure Archive.Notes (a : Archive) (noted : List (Method × Task)) : Prop where
  /-- The number of each task is known, to its reading or a later one. -/
  known : ∀ e ∈ noted, ∃ o, a.owners.get? e.2.compileId = some o ∧ e.2.pass ≤ o.pass
  /-- A number means the first task with it in some reading. -/
  first : ∀ id o, a.owners.get? id = some o →
    ∃ t, noted.find? (fun e => e.2.isNamed id o.pass) = some (o.method, t)

namespace Archive.Notes

variable {a : Archive} {noted : List (Method × Task)}

/-- Before a task is noted, no number means anything. -/
theorem empty : Archive.empty.Notes [] where
  known _ he := absurd he List.not_mem_nil
  first _ _ ho := by cases ho

/-- Noting one more task. -/
theorem noteOwner (h : a.Notes noted) (method : Method) (t : Task) :
    (a.noteOwner method t).Notes (noted ++ [(method, t)]) := by
  have hfound : ∀ id o, a.owners.get? id = some o →
      ∃ t', (noted ++ [(method, t)]).find? (fun e => e.2.isNamed id o.pass) =
        some (o.method, t') := by
    intro id o ho
    obtain ⟨t', ht'⟩ := h.first id o ho
    exact ⟨t', by rw [List.find?_append, ht', Option.some_or]⟩
  cases hnewer : (a.owners.get? t.compileId).all fun o => decide (o.pass < t.pass) with
  | false =>
    have howners : (a.noteOwner method t).owners = a.owners := by
      simp only [Archive.noteOwner, hnewer, Bool.false_eq_true, if_false]
    obtain ⟨o, ho, hold⟩ : ∃ o, a.owners.get? t.compileId = some o ∧ t.pass ≤ o.pass := by
      cases howner : a.owners.get? t.compileId with
      | none => simp [howner] at hnewer
      | some o => exact ⟨o, rfl, by simpa [howner] using hnewer⟩
    constructor
    · intro e he
      rw [howners]
      rcases List.mem_append.mp he with he | he
      · exact h.known e he
      · obtain rfl := List.mem_singleton.mp he
        exact ⟨o, ho, hold⟩
    · intro id o ho
      rw [howners] at ho
      exact hfound id o ho
  | true =>
    have howners : (a.noteOwner method t).owners = a.owners.insert t.compileId ⟨t.pass, method⟩ := by
      simp only [Archive.noteOwner, hnewer, if_true]
    have hearlier : ∀ o, a.owners.get? t.compileId = some o → o.pass < t.pass := fun o ho => by
      simpa [ho] using hnewer
    constructor
    · intro e he
      rw [howners, KeyMap.get?_insert]
      by_cases hid : t.compileId = e.2.compileId
      · rw [if_pos hid]
        refine ⟨_, rfl, ?_⟩
        rcases List.mem_append.mp he with he | he
        · obtain ⟨o, ho, hle⟩ := h.known e he
          exact Nat.le_of_lt (Nat.lt_of_le_of_lt hle (hearlier o (hid ▸ ho)))
        · obtain rfl := List.mem_singleton.mp he
          exact Nat.le_refl _
      · rw [if_neg hid]
        rcases List.mem_append.mp he with he | he
        · exact h.known e he
        · obtain rfl := List.mem_singleton.mp he
          exact absurd rfl hid
    · intro id o ho
      rw [howners, KeyMap.get?_insert] at ho
      split_ifs at ho with hid
      · subst hid
        obtain rfl := Option.some.inj ho
        -- No task that was noted before has the number in this reading: all are of earlier ones.
        have hnone : noted.find? (fun e => e.2.isNamed t.compileId t.pass) = none := by
          rw [List.find?_eq_none]
          intro e he hnamed
          obtain ⟨hid, hpass⟩ := Task.isNamed_iff.mp hnamed
          obtain ⟨o, ho, hle⟩ := h.known e he
          have hlt := hearlier o (hid ▸ ho)
          omega
        refine ⟨t, ?_⟩
        rw [List.find?_append, hnone, Option.none_or]
        simp [Task.isNamed]
      · exact hfound id o ho

/-- Noting the tasks of a history. By induction on the tasks. -/
theorem foldl_noteOwner (method : Method) (tasks : List Task) (h : a.Notes noted) :
    (tasks.foldl (Archive.noteOwner method) a).Notes (noted ++ tasks.map (Prod.mk method)) := by
  induction tasks generalizing a noted with
  | nil =>
    rw [List.map_nil, List.append_nil]
    exact h
  | cons t rest ih =>
    have hrest := ih (h.noteOwner method t)
    rw [List.append_assoc, List.singleton_append] at hrest
    exact hrest

/-- Adding stored histories notes their tasks. By induction on the histories. -/
theorem foldl_addHistory (histories : List MethodHistory) (h : a.Notes noted) :
    (histories.foldl addHistory a).Notes
      (noted ++ histories.flatMap fun m => m.tasks.map (Prod.mk m.method)) := by
  induction histories generalizing a noted with
  | nil =>
    rw [List.flatMap_nil, List.append_nil]
    exact h
  | cons m rest ih =>
    have hadded := h.foldl_noteOwner m.method m.tasks
    have hfirst : (a.addHistory m).Notes (noted ++ m.tasks.map (Prod.mk m.method)) :=
      ⟨hadded.known, hadded.first⟩
    have hrest := ih hfirst
    rw [List.append_assoc] at hrest
    exact hrest

end Archive.Notes

/-- The archive of a snapshot knows of numbers what the stored tasks tell. -/
theorem Snapshot.notes_toArchive (s : Snapshot) :
    s.toArchive.Notes (s.histories.flatMap fun m => m.tasks.map (Prod.mk m.method)) := by
  have hnoted := Archive.Notes.empty.foldl_addHistory s.histories
  rw [List.nil_append] at hnoted
  exact ⟨hnoted.known, hnoted.first⟩

/-! ### Looking up a number again -/

namespace Archive

/-- The archive of the snapshot of an archive. -/
def reloaded (a : Archive) : Archive := (Snapshot.ofArchive a).toArchive

/-- In the last reading that used a number, only the method that the number means has a task with
it. -/
def Unambiguous (a : Archive) (id : UInt64) : Prop :=
  ∀ o ∈ a.owners.get? id, ∀ h ∈ a.allHistories, h.Names id o.pass → h.method = o.method

instance (a : Archive) (id : UInt64) : Decidable (a.Unambiguous id) := by
  unfold Unambiguous
  infer_instance

variable {a : Archive}

/-- What is found first among the tasks with their methods is found first among the tasks, and first
in the history of its method. -/
theorem find?_tasks_of_stored {p : Task → Bool} {method : Method} {t : Task}
    (h : (a.allHistories.flatMap fun m => m.tasks.map (Prod.mk m.method)).find?
      (fun e => p e.2) = some (method, t)) :
    a.tasks.find? p = some t ∧ ∃ m ∈ a.allHistories, m.method = method ∧ m.tasks.find? p = some t := by
  constructor
  · have htasks : a.tasks =
        (a.allHistories.flatMap fun m => m.tasks.map (Prod.mk m.method)).map Prod.snd := by
      unfold tasks
      rw [List.map_flatMap]
      simp [Function.comp_def]
    have hfirst := congrArg (Option.map Prod.snd) h
    rw [htasks, List.find?_map]
    exact hfirst
  · rw [List.find?_flatMap] at h
    obtain ⟨m, hm, hfound⟩ := List.exists_of_findSome?_eq_some h
    rw [List.find?_map] at hfound
    obtain ⟨t', ht', heq⟩ := Option.map_eq_some_iff.mp hfound
    cases heq
    exact ⟨m, hm, rfl, ht'⟩

/-- A task of an archive is among its tasks with their methods. -/
theorem mem_stored {m : MethodHistory} (hm : m ∈ a.allHistories) {t : Task} (ht : t ∈ m.tasks) :
    (m.method, t) ∈ a.allHistories.flatMap fun m => m.tasks.map (Prod.mk m.method) :=
  List.mem_flatMap.mpr ⟨m, hm, List.mem_map_of_mem ht⟩

/-- Once a snapshot is loaded, a number means its last reading as before. -/
theorem pass_owners_reloaded (howned : a.Owned) (hnumbered : a.Numbered) (id : UInt64) :
    (a.reloaded.owners.get? id).map Owner.pass = (a.owners.get? id).map Owner.pass := by
  obtain ⟨hknown, hfirst⟩ := (Snapshot.ofArchive a).notes_toArchive
  have hearlier : ∀ o', a.reloaded.owners.get? id = some o' →
      ∃ o, a.owners.get? id = some o ∧ o'.pass ≤ o.pass := by
    intro o' ho'
    obtain ⟨t, ht⟩ := hfirst id o' ho'
    obtain ⟨_, m, hm, _, htask⟩ := find?_tasks_of_stored ht
    have hnamed := Task.isNamed_iff.mp (List.find?_some htask)
    obtain ⟨o, ho, hle, _⟩ := hnumbered m hm t (List.mem_of_find?_eq_some htask)
    exact ⟨o, hnamed.1 ▸ ho, hnamed.2 ▸ hle⟩
  cases howner : a.owners.get? id with
  | none =>
    cases howner' : a.reloaded.owners.get? id with
    | none => rfl
    | some o' =>
      obtain ⟨o, ho, _⟩ := hearlier o' howner'
      rw [howner] at ho
      cases ho
  | some o =>
    obtain ⟨m, hm, t, ht, hid, hpass⟩ := howned id o howner
    obtain ⟨o', ho', hle⟩ := hknown _ (mem_stored (KeyMap.mem_values_of_get? hm) ht)
    simp only [hid, hpass] at ho' hle
    obtain ⟨o'', ho'', hle'⟩ := hearlier o' ho'
    obtain rfl := Option.some.inj (howner.symm.trans ho'')
    have hsame : o'.pass = o.pass := by omega
    have howner' : a.reloaded.owners.get? id = some o' := ho'
    rw [howner', Option.map_some, Option.map_some, hsame]

/-- Once a snapshot is loaded, a number means the first task, in the order of methods, that has it
in the last reading that used it. -/
theorem task?_reloaded (hkeyed : a.Keyed) (hsame : a.reloaded.Same a) (howned : a.Owned)
    (hnumbered : a.Numbered) (id : UInt64) :
    a.reloaded.task? id =
      (a.owners.get? id).bind fun o => a.tasks.find? (Task.isNamed id o.pass) := by
  obtain ⟨_, hfirst⟩ := (Snapshot.ofArchive a).notes_toArchive
  have hpass := pass_owners_reloaded howned hnumbered id
  unfold task?
  cases howner' : a.reloaded.owners.get? id with
  | none =>
    rw [howner', Option.map_none] at hpass
    rw [Option.map_eq_none_iff.mp hpass.symm]
    rfl
  | some o' =>
    rw [howner', Option.map_some] at hpass
    obtain ⟨o, ho, hsamePass⟩ := Option.map_eq_some_iff.mp hpass.symm
    obtain ⟨t, ht⟩ := hfirst id o' howner'
    obtain ⟨htask, m, hm, hmethod, hhistory⟩ := find?_tasks_of_stored ht
    have hfound : a.reloaded.historyOf? o'.method = some m := by
      unfold historyOf?
      rw [hsame.1, ← hmethod]
      exact hkeyed.get?_method hm
    rw [ho, Option.bind_some, Option.bind_some, hfound, Option.bind_some, hsamePass, htask]
    exact hhistory

/-- A number that is known leads to a task of the reading that it means. -/
theorem task?_of_owner (howned : a.Owned) {id : UInt64} {o : Owner}
    (ho : a.owners.get? id = some o) : ∃ t, a.task? id = some t ∧ t.pass = o.pass := by
  obtain ⟨m, hm, hnames⟩ := howned id o ho
  cases hfound : m.taskIn? id o.pass with
  | none =>
    obtain ⟨t, ht, hid, hpass⟩ := hnames
    exact absurd (Task.isNamed_iff.mpr ⟨hid, hpass⟩) (List.find?_eq_none.mp hfound t ht)
  | some t =>
    have hnamed := Task.isNamed_iff.mp (List.find?_some hfound)
    refine ⟨t, ?_, hnamed.2⟩
    unfold task? historyOf?
    rw [ho, Option.bind_some, hm, Option.bind_some, hfound]

/-- A task is found for the numbers that mean something. -/
theorem Owned.isSome_task? (howned : a.Owned) {id : UInt64} :
    (a.task? id).isSome = (a.owners.get? id).isSome := by
  cases howner : a.owners.get? id with
  | none =>
    unfold task?
    rw [howner]
    rfl
  | some o =>
    obtain ⟨t, ht, _⟩ := task?_of_owner howned howner
    rw [ht]
    rfl

/-- The first task that a reload finds has the number and the reading of the task before. -/
theorem bind_task?_find? (howned : a.Owned) (id : UInt64) :
    ((a.task? id).bind fun t => a.tasks.find? (Task.isNamed id t.pass)) =
      (a.owners.get? id).bind fun o => a.tasks.find? (Task.isNamed id o.pass) := by
  cases howner : a.owners.get? id with
  | none =>
    have hnone : a.task? id = none := by
      unfold task?
      rw [howner, Option.bind_none]
    rw [hnone, Option.bind_none, Option.bind_none]
  | some o =>
    obtain ⟨t, ht, hpass⟩ := task?_of_owner howned howner
    rw [ht, Option.bind_some, Option.bind_some, hpass]

/-- Where only one method has tasks with a number in the last reading that used it, the first of all
these tasks is the one that the number means. -/
theorem Unambiguous.find?_eq {id : UInt64} (h : a.Unambiguous id) (hkeyed : a.Keyed)
    (howned : a.Owned) :
    ((a.owners.get? id).bind fun o => a.tasks.find? (Task.isNamed id o.pass)) = a.task? id := by
  unfold task?
  cases howner : a.owners.get? id with
  | none => rfl
  | some o =>
    obtain ⟨m, hm, t, ht, hid, hpass⟩ := howned id o howner
    rw [Option.bind_some, Option.bind_some]
    cases hfound : a.tasks.find? (Task.isNamed id o.pass) with
    | none =>
      have hmem : t ∈ a.tasks := List.mem_flatMap.mpr ⟨m, KeyMap.mem_values_of_get? hm, ht⟩
      exact absurd (Task.isNamed_iff.mpr ⟨hid, hpass⟩) (List.find?_eq_none.mp hfound t hmem)
    | some first =>
      unfold tasks at hfound
      rw [List.find?_flatMap] at hfound
      obtain ⟨m', hm', hfirst⟩ := List.exists_of_findSome?_eq_some hfound
      have hnamed := Task.isNamed_iff.mp (List.find?_some hfirst)
      have hnames : m'.Names id o.pass :=
        ⟨first, List.mem_of_find?_eq_some hfirst, hnamed.1, hnamed.2⟩
      have hmethod := h o howner m' hm' hnames
      have hhistory : a.historyOf? o.method = some m' := by
        unfold historyOf?
        rw [← hmethod]
        exact hkeyed.get?_method hm'
      rw [hhistory, Option.bind_some]
      exact hfirst.symm

/-- Once a snapshot is loaded, each number leads to a history that holds its task. -/
theorem owned_reloaded (hkeyed : a.Keyed) (hsame : a.reloaded.Same a) : a.reloaded.Owned := by
  intro id o ho
  obtain ⟨t, ht⟩ := (Snapshot.ofArchive a).notes_toArchive.first id o ho
  obtain ⟨_, m, hm, hmethod, hfound⟩ := find?_tasks_of_stored ht
  have hnamed := Task.isNamed_iff.mp (List.find?_some hfound)
  refine ⟨m, ?_, t, List.mem_of_find?_eq_some hfound, hnamed.1, hnamed.2⟩
  rw [hsame.1, ← hmethod]
  exact hkeyed.get?_method hm

/-- Once a snapshot is loaded, the numbers of all tasks are known. -/
theorem numbered_reloaded (hsame : a.reloaded.Same a) : a.reloaded.Numbered := by
  obtain ⟨hknown, hfirst⟩ := (Snapshot.ofArchive a).notes_toArchive
  have hbegun := (Snapshot.ofArchive a).forall_tasks_toArchive fun _ _ _ _ => trivial
  intro m hm t ht
  have hm' : m ∈ a.allHistories := by
    rw [hsame.1] at hm
    exact hm
  obtain ⟨o, ho, hle⟩ := hknown _ (mem_stored hm' ht)
  refine ⟨o, ho, hle, ?_⟩
  obtain ⟨t', ht'⟩ := hfirst _ o ho
  obtain ⟨_, m', hm'', _, hfound⟩ := find?_tasks_of_stored ht'
  have hnamed := Task.isNamed_iff.mp (List.find?_some hfound)
  rw [← hnamed.2]
  refine (hbegun m' ?_ t' (List.mem_of_find?_eq_some hfound)).2
  have hstored : m' ∈ a.reloaded.histories.values := by
    rw [hsame.1]
    exact hm''
  exact hstored

end Archive

end CompileLog

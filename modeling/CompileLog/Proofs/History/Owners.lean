import CompileLog.Proofs.History.Run
import CompileLog.Proofs.Search

/-!
# What task numbers mean

An archive knows for each number the last reading that used it and the method of its task there.
The history of that method then really holds the task: every act keeps it so. An event that finds
the history of its number therefore finds the task as well, and none is lost there.
-/

namespace CompileLog

/-- A history holds a task with a number in a reading. -/
def MethodHistory.Names (h : MethodHistory) (id : UInt64) (pass : Nat) : Prop :=
  ∃ t ∈ h.tasks, t.compileId = id ∧ t.pass = pass

instance (h : MethodHistory) (id : UInt64) (pass : Nat) : Decidable (h.Names id pass) := by
  unfold MethodHistory.Names
  infer_instance

/-- A task is named by its number and its reading. -/
theorem Task.isNamed_iff {id : UInt64} {pass : Nat} {t : Task} :
    t.isNamed id pass = true ↔ t.compileId = id ∧ t.pass = pass := by
  unfold isNamed
  rw [Bool.and_eq_true, decide_eq_true_eq, decide_eq_true_eq]

/-- Each number leads to a history that holds its task. -/
def Archive.Owned (a : Archive) : Prop :=
  ∀ id o, a.owners.get? id = some o →
    ∃ h, a.histories.get? o.method = some h ∧ h.Names id o.pass

/-- From some reading on, each number leads to a history that holds its task. -/
def Archive.OwnedSince (a : Archive) (first : Nat) : Prop :=
  ∀ id o, a.owners.get? id = some o → first ≤ o.pass →
    ∃ h, a.histories.get? o.method = some h ∧ h.Names id o.pass

/-- All numbers are those from the first reading on. -/
theorem Archive.owned_iff_since_zero {a : Archive} : a.Owned ↔ a.OwnedSince 0 :=
  ⟨fun h id o ho _ => h id o ho, fun h id o ho => h id o ho (Nat.zero_le _)⟩

/-! ### What becomes of a task -/

/-- A remark does not change the number of a task, nor its reading. -/
theorem Task.addRemark_keeps (t : Task) (r : Remark) :
    (t.addRemark r).compileId = t.compileId ∧ (t.addRemark r).pass = t.pass := by
  by_cases hr : r.isDeopt = false
  · obtain ⟨size, native, flags, heq⟩ := t.addRemark_eq_of_not_isDeopt hr
    rw [heq]
    exact ⟨rfl, rfl⟩
  · cases r with
    | deopt d => exact ⟨rfl, rfl⟩
    | native n => exact absurd rfl hr
    | listing l => exact absurd rfl hr

/-- Remarks do not change the number of a task, nor its reading. -/
theorem Task.foldl_addRemark_keeps (t : Task) (remarks : List Remark) :
    (remarks.foldl addRemark t).compileId = t.compileId ∧
      (remarks.foldl addRemark t).pass = t.pass := by
  induction remarks generalizing t with
  | nil => exact ⟨rfl, rfl⟩
  | cons r rest ih =>
    obtain ⟨hid, hpass⟩ := ih (t.addRemark r)
    obtain ⟨hid', hpass'⟩ := t.addRemark_keeps r
    exact ⟨hid.trans hid', hpass.trans hpass'⟩

/-- A task that is filed has its number, and the number of the reading. -/
theorem Index.completed_named (x : Index) (t : Task) :
    (x.completed t).compileId = t.compileId ∧ (x.completed t).pass = x.pass :=
  Task.foldl_addRemark_keeps { t with pass := x.pass } _

namespace MethodHistory

/-- A task joins the timeline at a place on it. -/
theorem positionOf_le (h : MethodHistory) (t : Task) : h.positionOf t ≤ h.tasks.length :=
  turningPoint_le _ _

/-- A task that is added joins the timeline. -/
theorem tasks_insert (h : MethodHistory) (t : Task) (duplicate : Bool) :
    (h.insert t duplicate).tasks = h.tasks.insertIdx (h.positionOf t) t := by
  obtain ⟨joined, htasks, _, heq⟩ := h.insert_eq_promote t duplicate
  rw [heq, ← htasks]
  unfold promote
  split <;> rfl

/-- An event that is bound is added to its task as a remark. -/
theorem tasks_bindDeopt (h : MethodHistory) (pass : Nat) (d : Deopt) :
    (h.bindDeopt pass d).tasks =
      (h.modifyTask d.compileId pass fun t => t.addRemark (.deopt d)).tasks := by
  unfold bindDeopt modifyTask
  cases h.tasks.findIdx? (Task.isNamed d.compileId pass) with
  | none => rfl
  | some i =>
    simp only
    split <;> rfl

/-- Changing the task of a number changes the first task of that number and reading, or none if there
is none. -/
theorem modifyTask_cases (h : MethodHistory) (id : UInt64) (pass : Nat) (f : Task → Task) :
    ((∀ t ∈ h.tasks, t.isNamed id pass = false) ∧ (h.modifyTask id pass f).tasks = h.tasks) ∨
      ∃ before t behind, h.tasks = before ++ t :: behind ∧ t.isNamed id pass = true ∧
        (h.modifyTask id pass f).tasks = before ++ f t :: behind := by
  unfold modifyTask
  cases hfound : h.tasks.findIdx? (Task.isNamed id pass) with
  | none => exact .inl ⟨List.findIdx?_eq_none_iff.mp hfound, rfl⟩
  | some i =>
    right
    obtain ⟨hi, hnamed, _⟩ := List.findIdx?_eq_some_iff_getElem.mp hfound
    obtain ⟨before, t, behind, htasks, hlength, hchanged⟩ := List.exists_of_modify f hi
    have hat : h.tasks[i] = t := by
      simp only [htasks, ← hlength, List.getElem_append_right (Nat.le_refl _), Nat.sub_self,
        List.getElem_cons_zero]
    exact ⟨before, t, behind, htasks, hat ▸ hnamed, hchanged⟩

/-- Adding a task keeps the names. -/
theorem Names.insert {h : MethodHistory} {id : UInt64} {pass : Nat} (hn : h.Names id pass)
    (t : Task) (duplicate : Bool) : (h.insert t duplicate).Names id pass := by
  obtain ⟨named, hmem, heq⟩ := hn
  refine ⟨named, ?_, heq⟩
  rw [tasks_insert]
  exact (List.mem_insertIdx (h.positionOf_le t)).mpr (.inr hmem)

/-- An added task is named by its number in its reading. -/
theorem names_insert_self (h : MethodHistory) (t : Task) (duplicate : Bool) :
    (h.insert t duplicate).Names t.compileId t.pass := by
  refine ⟨t, ?_, rfl, rfl⟩
  rw [tasks_insert]
  exact (List.mem_insertIdx (h.positionOf_le t)).mpr (.inl rfl)

/-- Adding a remark to a task keeps the names. -/
theorem Names.addRemark {h : MethodHistory} {id : UInt64} {pass : Nat} (hn : h.Names id pass)
    (id' : UInt64) (pass' : Nat) (r : Remark) :
    (h.modifyTask id' pass' fun t => t.addRemark r).Names id pass := by
  unfold modifyTask
  cases h.tasks.findIdx? (Task.isNamed id' pass') with
  | none => exact hn
  | some i =>
    obtain ⟨named, hmem, hid, hpass⟩ := hn
    obtain ⟨j, hj⟩ := List.mem_iff_getElem?.mp hmem
    have hchanged : (h.tasks.modify i fun t => t.addRemark r)[j]? =
        some (if i = j then named.addRemark r else named) := by
      rw [List.getElem?_modify, hj]
      rfl
    refine ⟨_, List.mem_of_getElem? hchanged, ?_⟩
    split
    · obtain ⟨hid', hpass'⟩ := named.addRemark_keeps r
      exact ⟨hid'.trans hid, hpass'.trans hpass⟩
    · exact ⟨hid, hpass⟩

/-- Binding an event keeps the names. -/
theorem Names.bindDeopt {h : MethodHistory} {id : UInt64} {pass : Nat} (hn : h.Names id pass)
    (pass' : Nat) (d : Deopt) : (h.bindDeopt pass' d).Names id pass := by
  unfold Names
  rw [tasks_bindDeopt]
  exact hn.addRemark _ _ _

/-- A remark keeps the names. -/
theorem Names.remarked {h changed : MethodHistory} {id : UInt64} {pass : Nat}
    (hn : h.Names id pass) (hremarked : h.Remarked changed) : changed.Names id pass := by
  cases hremarked with
  | bound pass' d => exact hn.bindDeopt pass' d
  | added id' pass' r => exact hn.addRemark id' pass' r

/-- A named task is found. -/
theorem Names.exists_findIdx? {h : MethodHistory} {id : UInt64} {pass : Nat}
    (hn : h.Names id pass) :
    ∃ i < h.tasks.length, h.tasks.findIdx? (Task.isNamed id pass) = some i := by
  obtain ⟨t, hmem, hid, hpass⟩ := hn
  cases hfound : h.tasks.findIdx? (Task.isNamed id pass) with
  | none =>
    have hnot := List.findIdx?_eq_none_iff.mp hfound t hmem
    simp [Task.isNamed, hid, hpass] at hnot
  | some i => exact ⟨i, (List.findIdx?_eq_some_iff_findIdx_eq.mp hfound).1, rfl⟩

end MethodHistory

/-! ### Every act keeps the meaning of numbers -/

namespace Archive.OwnedSince

variable {first : Nat}

/-- Where the same is filed, numbers mean the same. -/
theorem congr {a b : Archive} (h : a.OwnedSince first) (hsame : SameFiled b a) :
    b.OwnedSince first := by
  intro id o ho
  rw [hsame.owners_eq] at ho
  rw [hsame.histories_eq]
  exact h id o ho

/-- Putting back a history that still holds all its tasks keeps what numbers mean. -/
theorem putHistory {x : Index} (h : x.OwnedSince first) {key : Method} {changed : MethodHistory}
    (hkeeps : ∀ old, x.histories.get? key = some old →
      ∀ id pass, old.Names id pass → changed.Names id pass) :
    (x.putHistory key changed).OwnedSince first := by
  intro id o ho hsince
  exact KeyMap.exists_get?_insert (h id o ho hsince) fun old hold hnames =>
    hkeeps old hold id o.pass hnames

/-- Filing a task keeps what numbers mean. -/
theorem recordTask {x : Index} (h : x.OwnedSince first) (t : Task) :
    (x.recordTask t).OwnedSince first := by
  obtain ⟨hid, hpass⟩ := x.completed_named t
  have hfiled : (x.putHistory (x.completed t).method
      ((x.historyFor (x.completed t)).insert (x.completed t)
        (x.owners.get? t.compileId).isSome)).OwnedSince first := by
    refine h.putHistory fun old hold id pass hnames => ?_
    rw [Index.historyFor_of_get? hold]
    exact hnames.insert _ _
  rw [x.recordTask_eq t]
  intro id o ho hsince
  simp only at ho ⊢
  split_ifs at ho with hnow
  · exact hfiled id o ho hsince
  · rw [KeyMap.get?_insert] at ho
    split_ifs at ho with hsame
    · subst hsame
      obtain rfl := Option.some.inj ho
      refine ⟨_, by rw [KeyMap.get?_insert, if_pos rfl], ?_⟩
      have hself := (x.historyFor (x.completed t)).names_insert_self (x.completed t)
        (x.owners.get? t.compileId).isSome
      rwa [hid, hpass] at hself
    · exact hfiled id o ho hsince

/-- No act changes that each number leads to its task from some reading on. -/
theorem archiveInvariant (first : Nat) :
    ArchiveInvariant (fun _ => True) fun a => a.OwnedSince first := by
  refine .of_remarked (fun hsame h => h.congr hsame) (fun _ h => h) (fun _ t _ h => h.recordTask t) ?_
  intro x y hremarked h
  cases hremarked with
  | putBack hfound hchanged =>
    refine h.putHistory fun old hold id pass hnames => ?_
    obtain rfl := Option.some.inj (hfound.symm.trans hold)
    exact hnames.remarked hchanged
  | held hsame => exact h.congr hsame

end Archive.OwnedSince

namespace Archive.Owned

/-- No act changes that each number leads to its task. -/
theorem archiveInvariant : ArchiveInvariant (fun _ => True) Archive.Owned := by
  have hsince : Archive.Owned = fun a => a.OwnedSince 0 :=
    funext fun _ => propext owned_iff_since_zero
  rw [hsince]
  exact OwnedSince.archiveInvariant 0

/-- Where the same is filed, numbers mean the same. -/
theorem congr {a b : Archive} (h : a.Owned) (hsame : SameFiled b a) : b.Owned :=
  archiveInvariant.congr hsame h

/-- Every act keeps what numbers mean. -/
theorem act {s : Store} (h : s.archive.Owned) (a : Act) : (s.act a).archive.Owned :=
  archiveInvariant.act h a.files_true

/-- Every sequence of acts keeps what numbers mean. -/
theorem run {s : Store} (h : s.archive.Owned) (acts : List Act) : (s.run acts).archive.Owned :=
  archiveInvariant.run h fun a _ => a.files_true

end Archive.Owned

/-- In an archive that holds nothing, no number means anything. -/
theorem Index.owned_empty (capacity : Nat) : (Index.empty capacity).Owned := by
  intro id o ho
  cases ho

end CompileLog

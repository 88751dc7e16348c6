import CompileLog.Proofs.History.Timeline
import Mathlib.Data.List.Sort

/-!
# Joining a timeline

On a timeline in order, a task that is added joins in front of the first task that it comes before.
Two tasks with different numbers never have the same place, so it does not matter which of them joins
first: the timeline that some tasks give depends on the tasks alone.
-/

namespace CompileLog

/-- A task comes before another on a timeline, and not at the same place. -/
def Task.ComesBefore (a b : Task) : Prop := b.notAfter a = false

instance : DecidableRel Task.ComesBefore := fun a b =>
  inferInstanceAs (Decidable (b.notAfter a = false))

/-- A timeline once a task has joined it. -/
def joined (timeline : List Task) (t : Task) : List Task :=
  timeline.orderedInsert Task.ComesBefore t

/-! ### Places -/

/-- Of two tasks with different numbers one comes before the other. -/
theorem Task.comesBefore_or_comesBefore {a b : Task} (h : a.compileId ≠ b.compileId) :
    a.ComesBefore b ∨ b.ComesBefore a := by
  have hne : a.compileId.toNat ≠ b.compileId.toNat := fun heq => h (UInt64.toNat_inj.mp heq)
  unfold ComesBefore
  rw [← Bool.not_eq_true, ← Bool.not_eq_true, notAfter_iff, notAfter_iff]
  unfold Before place
  simp only
  omega

/-- A task that comes before another does not come after it. -/
theorem Task.ComesBefore.notAfter {a b : Task} (h : a.ComesBefore b) : a.notAfter b = true :=
  Task.notAfter_of_notAfter_eq_false h

/-- A task comes before another if its place does. -/
theorem Task.comesBefore_congr {a a' b b' : Task} (ha : a'.place = a.place)
    (hb : b'.place = b.place) : a'.ComesBefore b' ↔ a.ComesBefore b := by
  unfold ComesBefore
  rw [← Bool.not_eq_true, ← Bool.not_eq_true, notAfter_iff, notAfter_iff, ha, hb]

/-! ### One task -/

/-- An element that goes behind all in front of a position and in front of all from there on is put
where it belongs. By induction on the list. -/
theorem insertIdx_eq_orderedInsert {α : Type} {r : α → α → Prop} [DecidableRel r] {l : List α}
    {i : Nat} (hi : i ≤ l.length) {x : α} (hfront : ∀ j < i, ∀ y, l[j]? = some y → ¬ r x y)
    (hback : ∀ j, i ≤ j → ∀ y, l[j]? = some y → r x y) :
    l.insertIdx i x = l.orderedInsert r x := by
  induction l generalizing i with
  | nil =>
    obtain rfl : i = 0 := Nat.le_zero.mp hi
    rfl
  | cons head rest ih =>
    cases i with
    | zero =>
      have hbefore : r x head := hback 0 (Nat.le_refl 0) head rfl
      rw [List.insertIdx_zero, List.orderedInsert_cons, if_pos hbefore]
    | succ i =>
      have hbehind : ¬ r x head := hfront 0 (Nat.succ_pos i) head rfl
      rw [List.insertIdx_succ_cons, List.orderedInsert_cons, if_neg hbehind]
      refine congrArg (List.cons head) (ih (Nat.le_of_succ_le_succ hi) ?_ ?_)
      · intro j hj y hy
        exact hfront (j + 1) (Nat.succ_lt_succ hj) y hy
      · intro j hj y hy
        exact hback (j + 1) (Nat.succ_le_succ hj) y hy

/-- A task that is added to a history in order joins its timeline. -/
theorem MethodHistory.InOrder.tasks_insert {h : MethodHistory} (horder : h.InOrder) (t : Task)
    (duplicate : Bool) : (h.insert t duplicate).tasks = joined h.tasks t := by
  obtain ⟨hfront, hback⟩ := MethodHistory.positionOf_spec horder t
  have hnot : ∀ j < h.positionOf t, ∀ o, h.tasks[j]? = some o → ¬ t.ComesBefore o := by
    intro j hj o ho hbefore
    have hafter := hfront j hj o ho
    rw [Task.ComesBefore, hafter] at hbefore
    cases hbefore
  rw [MethodHistory.tasks_insert]
  exact insertIdx_eq_orderedInsert (h.positionOf_le t) hnot hback

/-- It does not matter which of two tasks joins a timeline first, if one comes before the other. By
induction on the timeline. -/
theorem joined_comm_of_comesBefore {a b : Task} (h : a.ComesBefore b) (timeline : List Task) :
    joined (joined timeline a) b = joined (joined timeline b) a := by
  have hnot : ¬ b.ComesBefore a := by
    intro hback
    have hafter := h.notAfter
    rw [Task.ComesBefore, hafter] at hback
    cases hback
  unfold joined
  induction timeline with
  | nil => simp [h, hnot]
  | cons o rest ih =>
    by_cases ha : a.ComesBefore o
    · by_cases hb : b.ComesBefore o
      · simp [ha, hb, h, hnot]
      · simp [ha, hb, hnot]
    · -- What is not behind the first is not behind the second either.
      have hb : ¬ b.ComesBefore o := by
        intro hb
        have hoa : o.notAfter a = true := by
          unfold Task.ComesBefore at ha
          rwa [Bool.not_eq_false] at ha
        have hob := Task.notAfter_trans hoa h.notAfter
        rw [Task.ComesBefore, hob] at hb
        cases hb
      simp only [List.orderedInsert_cons, ha, hb, if_false, ih]

/-- It does not matter which of two tasks with different numbers joins a timeline first. -/
theorem joined_comm {a b : Task} (h : a.compileId ≠ b.compileId) (timeline : List Task) :
    joined (joined timeline a) b = joined (joined timeline b) a := by
  rcases Task.comesBefore_or_comesBefore h with hbefore | hbefore
  · exact joined_comm_of_comesBefore hbefore timeline
  · exact (joined_comm_of_comesBefore hbefore timeline).symm

/-- What leaves tasks in their places may be done before or after one joins. -/
theorem map_joined {f : Task → Task} (hf : ∀ t, (f t).place = t.place) (timeline : List Task)
    (t : Task) : (joined timeline t).map f = joined (timeline.map f) (f t) :=
  List.map_orderedInsert _ _ f timeline t (fun o _ => (Task.comesBefore_congr (hf o) (hf t)).symm)
    fun o _ => (Task.comesBefore_congr (hf t) (hf o)).symm

/-! ### Many tasks -/

/-- A timeline holds what it held before and the tasks that joined it. By induction on these. -/
theorem foldl_joined_perm (tasks timeline : List Task) :
    (tasks.foldl joined timeline).Perm (tasks ++ timeline) := by
  induction tasks generalizing timeline with
  | nil => exact .refl _
  | cons t rest ih =>
    have hone : (joined timeline t).Perm (t :: timeline) := List.perm_orderedInsert _ t timeline
    refine (ih (joined timeline t)).trans ?_
    exact (hone.append_left rest).trans List.perm_middle

/-- What leaves tasks in their places may be done before or after many join. By induction on
these. -/
theorem map_foldl_joined {f : Task → Task} (hf : ∀ t, (f t).place = t.place)
    (tasks timeline : List Task) :
    (tasks.foldl joined timeline).map f = (tasks.map f).foldl joined (timeline.map f) := by
  induction tasks generalizing timeline with
  | nil => rfl
  | cons t rest ih => rw [List.foldl_cons, ih, map_joined hf, List.map_cons, List.foldl_cons]

/-- The timeline that tasks with different numbers give does not depend on their order. -/
theorem foldl_joined_of_perm {tasks tasks' : List Task} (hperm : tasks.Perm tasks')
    (hdistinct : (tasks.map Task.compileId).Nodup) (timeline : List Task) :
    tasks.foldl joined timeline = tasks'.foldl joined timeline := by
  refine hperm.foldl_eq' (fun a ha b hb timeline => ?_) timeline
  by_cases hid : a.compileId = b.compileId
  · rw [List.inj_on_of_nodup_map hdistinct ha hb hid]
  · exact joined_comm hid timeline

end CompileLog

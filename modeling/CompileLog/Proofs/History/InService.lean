import CompileLog.Proofs.History.Run
import CompileLog.Proofs.Search
import Mathlib.Data.List.Induction
import Mathlib.Data.Prod.Lex
import Mathlib.Order.BooleanAlgebra.Basic
import Mathlib.Order.Bounds.Basic

/-!
# The code in service

A history keeps the position of the task whose code is in service, and changes it step by step:
filing a task moves it and compares it with the new task alone, and an event at run time has it
looked up anew only if it hit that very task. This file proves that the position is always the
one that looking at all tasks gives.
-/

namespace CompileLog

/-- The task at a position is finished, gave machine code, and the code did not go out of
service. -/
def LiveAt (tasks : List Task) (i : Nat) : Prop :=
  ∃ t, tasks[i]? = some t ∧ t.state = .closed ∧ t.outcome = .succeeded ∧ t.isInvalidated = false

/-- The task at a position is a standard compilation. -/
def StandardAt (tasks : List Task) (i : Nat) : Prop :=
  ∃ t, tasks[i]? = some t ∧ t.kind = .standard

/-- The position of the task whose code is in service: the last live standard compilation, or
where there is none the last live task, or none where no task is live. -/
inductive InService (tasks : List Task) : Option Nat → Prop where
  /-- The last live standard compilation. -/
  | standard {i : Nat} (h : IsGreatest {i | LiveAt tasks i ∧ StandardAt tasks i} i) :
      InService tasks (some i)
  /-- The last live task of any other kind. -/
  | other {i : Nat} (hstandard : ∀ j, ¬ (LiveAt tasks j ∧ StandardAt tasks j))
      (h : IsGreatest {i | LiveAt tasks i} i) : InService tasks (some i)
  /-- No live task. -/
  | none (h : ∀ j, ¬ LiveAt tasks j) : InService tasks none

/-- What is in service is live. -/
theorem InService.liveAt {tasks : List Task} {i : Nat} (h : InService tasks (some i)) :
    LiveAt tasks i := by
  cases h with
  | standard h => exact h.1.1
  | other _ h => exact h.1

/-- At most one position is in service. -/
theorem InService.unique {tasks : List Task} {c c' : Option Nat} (h : InService tasks c)
    (h' : InService tasks c') : c = c' := by
  cases h with
  | standard h =>
    cases h' with
    | standard h' => rw [h.unique h']
    | other hstandard _ => exact absurd h.1 (hstandard _)
    | none hnone => exact absurd h.1.1 (hnone _)
  | other hstandard h =>
    cases h' with
    | standard h' => exact absurd h'.1 (hstandard _)
    | other _ h' => rw [h.unique h']
    | none hnone => exact absurd h.1 (hnone _)
  | none hnone =>
    cases h' with
    | standard h' => exact absurd h'.1.1 (hnone _)
    | other _ h' => exact absurd h'.1 (hnone _)
    | none _ => rfl

/-- A task is live as the history tells it. -/
theorem liveAt_iff {tasks : List Task} {i : Nat} :
    LiveAt tasks i ↔ tasks[i]?.any Task.isLive = true := by
  unfold LiveAt
  cases tasks[i]? with
  | none => simp
  | some t => simp [Task.isLive, Task.succeeded, and_assoc]

/-- A task is standard as the history tells it. -/
theorem standardAt_iff {tasks : List Task} {i : Nat} :
    StandardAt tasks i ↔ (tasks[i]?.any fun t => t.kind = .standard) = true := by
  unfold StandardAt
  cases tasks[i]? with
  | none => simp
  | some t => simp

/-! ### Looking at all tasks -/

/-- What is looked for from the end is found at the last task, or before it. -/
theorem lastPosition?_concat (tasks : List Task) (t : Task) (p : Task → Bool) :
    MethodHistory.lastPosition? (tasks ++ [t]) p =
      if p t then some tasks.length else MethodHistory.lastPosition? tasks p := by
  unfold MethodHistory.lastPosition?
  rw [List.reverse_concat, List.findIdx?_cons]
  by_cases ht : p t
  · simp [ht]
  · simp only [ht, Bool.false_eq_true, if_false, Option.map_map]
    congr 1
    funext i
    simp only [Function.comp_apply, List.length_append, List.length_singleton]
    omega

/-- Looking from the end finds the last position that fulfils a condition, and fails only if
none does. -/
theorem lastPosition?_spec (tasks : List Task) (p : Task → Bool) :
    match MethodHistory.lastPosition? tasks p with
    | some i => IsGreatest {i : Nat | tasks[i]?.any p = true} i
    | none => ∀ i : Nat, ¬ tasks[i]?.any p = true := by
  -- The search runs from the end, so the list is taken apart there.
  induction tasks using List.reverseRecOn with
  | nil =>
    intro i
    simp
  | append_singleton tasks t ih =>
    have hbefore : ∀ i < tasks.length, (tasks ++ [t])[i]? = tasks[i]? :=
      fun i hi => List.getElem?_append_left hi
    have hinside : ∀ i : Nat, tasks[i]?.any p = true → i < tasks.length := by
      intro i hi
      by_contra hout
      rw [List.getElem?_eq_none (by omega)] at hi
      exact absurd hi (by simp)
    have hinside' : ∀ i : Nat, (tasks ++ [t])[i]?.any p = true → i ≤ tasks.length := by
      intro i hi
      by_contra hout
      rw [List.getElem?_eq_none (by simp; omega)] at hi
      exact absurd hi (by simp)
    rw [lastPosition?_concat]
    by_cases ht : p t = true
    · rw [if_pos ht]
      exact ⟨by simpa using ht, fun i hi => hinside' i hi⟩
    · rw [if_neg ht]
      have hlast : ∀ i : Nat, (tasks ++ [t])[i]?.any p = true → tasks[i]?.any p = true := by
        intro i hi
        rcases Nat.lt_or_eq_of_le (hinside' i hi) with hlt | rfl
        · rwa [hbefore i hlt] at hi
        · exact absurd (by simpa using hi) ht
      cases hfound : MethodHistory.lastPosition? tasks p with
      | none =>
        rw [hfound] at ih
        exact fun i hi => ih i (hlast i hi)
      | some k =>
        rw [hfound] at ih
        refine ⟨?_, fun i hi => ih.2 (hlast i hi)⟩
        have hk := hbefore k (hinside k ih.1)
        show (tasks ++ [t])[k]?.any p = true
        rw [hk]
        exact ih.1

/-- A task is a live standard compilation as the history tells it. -/
theorem liveAt_and_standardAt_iff {tasks : List Task} {i : Nat} :
    LiveAt tasks i ∧ StandardAt tasks i ↔
      tasks[i]?.any (fun t => t.isLive && decide (t.kind = .standard)) = true := by
  rw [liveAt_iff, standardAt_iff]
  cases tasks[i]? with
  | none => simp
  | some t => simp

/-- Looking at all tasks finds the one in service. -/
theorem inService_findCurrent? (tasks : List Task) :
    InService tasks (MethodHistory.findCurrent? tasks) := by
  have hstandard := lastPosition?_spec tasks fun t => t.isLive && decide (t.kind = .standard)
  have hlive := lastPosition?_spec tasks Task.isLive
  simp only [← liveAt_and_standardAt_iff] at hstandard
  simp only [← liveAt_iff] at hlive
  unfold MethodHistory.findCurrent?
  cases hfound : MethodHistory.lastPosition? tasks
      (fun t => t.isLive && decide (t.kind = .standard)) with
  | some i =>
    rw [hfound] at hstandard
    exact .standard hstandard
  | none =>
    rw [hfound] at hstandard
    rw [Option.none_or]
    cases hother : MethodHistory.lastPosition? tasks Task.isLive with
    | some i =>
      rw [hother] at hlive
      exact .other hstandard hlive
    | none =>
      rw [hother] at hlive
      exact .none hlive

/-! ### Comparing ranks -/

/-- What tasks are compared by for the code in service: a standard compilation comes before
another, then the later before the earlier. -/
def rank (tasks : List Task) (i : Nat) : Bool ×ₗ Nat :=
  toLex (tasks[i]?.any fun t => t.kind = .standard, i)

/-- Of two ranks the standard compilation's is greater, and among alike the later's. -/
theorem rank_le_rank_iff {tasks tasks' : List Task} {i j : Nat} :
    rank tasks i ≤ rank tasks' j ↔
      (¬ StandardAt tasks i ∧ StandardAt tasks' j) ∨
        ((StandardAt tasks i ↔ StandardAt tasks' j) ∧ i ≤ j) := by
  unfold rank
  rw [Prod.Lex.toLex_le_toLex, standardAt_iff, standardAt_iff, Bool.lt_iff, Bool.not_eq_true,
    ← Bool.eq_iff_iff]

/-- The history compares tasks by their ranks. -/
theorem outranks_iff {h : MethodHistory} {i j : Nat} :
    h.outranks i j = true ↔ rank h.tasks j < rank h.tasks i := by
  unfold MethodHistory.outranks MethodHistory.isStandardAt rank
  rw [Prod.Lex.toLex_lt_toLex, Bool.lt_iff]
  cases (h.tasks[i]?.any fun t => decide (t.kind = .standard)) <;>
    cases (h.tasks[j]?.any fun t => decide (t.kind = .standard)) <;> simp

/-- The choice among some positions is the one of the greatest rank, or none if there are
none. -/
def BestOf (tasks : List Task) (among : Set Nat) : Option Nat → Prop
  | some i => i ∈ among ∧ ∀ j ∈ among, rank tasks j ≤ rank tasks i
  | none => ∀ j, j ∉ among

/-- The task in service is the best of the live ones. -/
theorem inService_iff_bestOf {tasks : List Task} {c : Option Nat} :
    InService tasks c ↔ BestOf tasks {i | LiveAt tasks i} c := by
  constructor
  · intro h
    cases h with
    | standard h =>
      refine ⟨h.1.1, fun j hj => ?_⟩
      by_cases hs : StandardAt tasks j
      · exact rank_le_rank_iff.mpr (.inr ⟨iff_of_true hs h.1.2, h.2 ⟨hj, hs⟩⟩)
      · exact rank_le_rank_iff.mpr (.inl ⟨hs, h.1.2⟩)
    | other hstandard h =>
      refine ⟨h.1, fun j hj => ?_⟩
      have hsame : StandardAt tasks j ↔ StandardAt tasks _ :=
        iff_of_false (fun hs => hstandard j ⟨hj, hs⟩) (fun hs => hstandard _ ⟨h.1, hs⟩)
      exact rank_le_rank_iff.mpr (.inr ⟨hsame, h.2 hj⟩)
    | none h => exact h
  · intro h
    cases c with
    | none => exact .none h
    | some i =>
      obtain ⟨hlive, hbest⟩ := h
      by_cases hs : StandardAt tasks i
      · refine .standard ⟨⟨hlive, hs⟩, fun j hj => ?_⟩
        rcases rank_le_rank_iff.mp (hbest j hj.1) with ⟨hother, _⟩ | ⟨_, hle⟩
        · exact absurd hj.2 hother
        · exact hle
      · refine .other (fun j hj => ?_) ⟨hlive, fun j hj => ?_⟩
        · rcases rank_le_rank_iff.mp (hbest j hj.1) with ⟨hother, _⟩ | ⟨hsame, _⟩
          · exact hother hj.2
          · exact hs (hsame.mp hj.2)
        · rcases rank_le_rank_iff.mp (hbest j hj) with ⟨_, hs'⟩ | ⟨_, hle⟩
          · exact absurd hs' hs
          · exact hle

end CompileLog

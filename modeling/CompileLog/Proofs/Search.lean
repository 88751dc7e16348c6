import CompileLog.Search

/-!
# Where a search ends

Halving never leaves the positions that it was given, and ends where the predicate turns: it holds
just before the turning point and fails at it, however often it changes elsewhere. Where the
predicate holds on a first part of the positions and fails on the rest, there is one such point.
-/

namespace CompileLog

/-- Halving ends at one of the positions. -/
theorem bisect_lt (holds : Nat → Bool) (base size : Nat) (h : 0 < size) :
    bisect holds base size < base + size := by
  induction base, size using bisect.induct holds with
  | case1 base size hlarge half ih =>
    rw [bisect, dif_pos hlarge]
    have hhalf : half = size / 2 := rfl
    have hend := ih (by omega)
    refine Nat.lt_of_lt_of_le hend ?_
    split <;> omega
  | case2 base size hsmall =>
    rw [bisect, dif_neg hsmall]
    omega

/-- A turning point is a position or the end. -/
theorem turningPoint_le (holds : Nat → Bool) (size : Nat) : turningPoint holds size ≤ size := by
  unfold turningPoint
  by_cases hempty : size = 0
  · rw [if_pos hempty]
    exact Nat.zero_le _
  · rw [if_neg hempty]
    have hlt := bisect_lt holds 0 size (Nat.pos_of_ne_zero hempty)
    simp only
    split <;> omega

/-- Where a predicate turns once, halving ends at a position before which it holds and behind
which it fails. The predicate holds at every position in front of the range that is left. -/
theorem bisect_spec {holds : Nat → Bool} {base size : Nat}
    (hturns : ∀ i j, i ≤ j → j < base + size → holds j = true → holds i = true)
    (hbefore : ∀ i < base, holds i = true) :
    (∀ i < bisect holds base size, holds i = true) ∧
      ∀ i, bisect holds base size < i → i < base + size → holds i = false := by
  induction base, size using bisect.induct holds with
  | case1 base size hlarge half ih =>
    have hhalf : half = size / 2 := rfl
    rw [bisect, dif_pos hlarge]
    show (∀ i < bisect holds (if holds (base + half) = true then base + half else base)
        (size - half), holds i = true) ∧
      ∀ i, bisect holds (if holds (base + half) = true then base + half else base)
        (size - half) < i → i < base + size → holds i = false
    by_cases hmiddle : holds (base + half) = true
    · -- The middle still holds, so everything up to it does, and the search goes on behind it.
      have hend : base + half + (size - half) = base + size := by omega
      have hleft : ∀ i < base + half, holds i = true := fun i hi =>
        hturns i (base + half) (by omega) (by omega) hmiddle
      rw [dif_pos hmiddle, hend] at ih
      rw [if_pos hmiddle]
      exact ih hturns hleft
    · have hfails : ∀ i, base + half ≤ i → i < base + size → holds i = false := fun i hle hlt =>
        Bool.eq_false_iff.mpr fun hi => hmiddle (hturns (base + half) i hle hlt hi)
      rw [dif_neg hmiddle] at ih
      rw [if_neg hmiddle]
      obtain ⟨hfront, hback⟩ := ih (fun i j hij hj => hturns i j hij (by omega)) hbefore
      refine ⟨hfront, fun i hi hlt => ?_⟩
      by_cases hinside : i < base + (size - half)
      · exact hback i hi hinside
      · exact hfails i (by omega) hlt
  | case2 base size hsmall =>
    rw [bisect, dif_neg hsmall]
    exact ⟨hbefore, fun i hi hlt => by omega⟩

/-- Where a predicate turns once, it holds at every position before its turning point and fails at
every position from there on. -/
theorem turningPoint_spec {holds : Nat → Bool} {size : Nat}
    (hturns : ∀ i j, i ≤ j → j < size → holds j = true → holds i = true) :
    (∀ i < turningPoint holds size, holds i = true) ∧
      ∀ i, turningPoint holds size ≤ i → i < size → holds i = false := by
  unfold turningPoint
  by_cases hempty : size = 0
  · rw [if_pos hempty]
    exact ⟨fun i hi => by omega, fun i _ hi => by omega⟩
  · have hturns' : ∀ i j, i ≤ j → j < 0 + size → holds j = true → holds i = true := by
      rwa [Nat.zero_add]
    obtain ⟨hfront, hback⟩ := bisect_spec hturns' fun i hi => absurd hi (Nat.not_lt_zero i)
    rw [Nat.zero_add] at hback
    rw [if_neg hempty]
    simp only
    cases hend : holds (bisect holds 0 size) with
    | true =>
      simp only [if_true]
      refine ⟨fun i hi => ?_, fun i hi => hback i (by omega)⟩
      rcases Nat.lt_succ_iff_lt_or_eq.mp hi with hlt | rfl
      · exact hfront i hlt
      · exact hend
    | false =>
      simp only [Bool.false_eq_true, if_false]
      refine ⟨hfront, fun i hi hlt => ?_⟩
      rcases Nat.lt_or_eq_of_le hi with hbehind | rfl
      · exact hback i hbehind hlt
      · exact hend

/-- Halving ends at the first position or at one where the predicate holds, and the next position is
the end or one where it fails. The search knows of a position, at the end of the range that is left
or one before it, at which the predicate fails or all positions end. -/
theorem bisect_turns {holds : Nat → Bool} {base size stop total : Nat} (hbase : base < stop)
    (hstop : stop ≤ base + size) (hrange : base + size ≤ stop + 1) (htotal : base + size ≤ total)
    (hfails : stop < total → holds stop = false) :
    (bisect holds base size = base ∨ holds (bisect holds base size) = true) ∧
      (bisect holds base size + 1 < total → holds (bisect holds base size + 1) = false) := by
  fun_induction bisect holds base size generalizing stop with
  | case1 base size hlarge half =>
    rename_i ih
    have hhalf : half = size / 2 := rfl
    by_cases hmiddle : holds (base + half) = true
    · -- The middle holds, so it is not the position known to fail.
      have hne : base + half ≠ stop := by
        rintro rfl
        exact Bool.eq_false_iff.mp (hfails (by omega)) hmiddle
      rw [dif_pos hmiddle] at ih
      rw [if_pos hmiddle]
      obtain ⟨hat, hnext⟩ := ih (by omega) (by omega) (by omega) (by omega) hfails
      refine ⟨.inr ?_, hnext⟩
      rcases hat with hsame | hholds
      · exact (congrArg holds hsame).trans hmiddle
      · exact hholds
    · have hfalse : holds (base + half) = false := Bool.eq_false_iff.mpr hmiddle
      rw [dif_neg hmiddle] at ih
      rw [if_neg hmiddle]
      exact ih (by omega) (by omega) (by omega) (by omega) fun _ => hfalse
  | case2 base size hsmall =>
    refine ⟨.inl rfl, fun hlt => ?_⟩
    obtain rfl : stop = base + 1 := by omega
    exact hfails hlt

/-- At its turning point a predicate fails, unless all positions end there, and just before it the
predicate holds. The predicate may change back and forth elsewhere. -/
theorem turningPoint_turns (holds : Nat → Bool) (size : Nat) :
    (∀ i, turningPoint holds size = i + 1 → holds i = true) ∧
      (turningPoint holds size < size → holds (turningPoint holds size) = false) := by
  unfold turningPoint
  by_cases hempty : size = 0
  · rw [if_pos hempty, hempty]
    exact ⟨fun i hi => absurd hi (by omega), fun h => absurd h (Nat.lt_irrefl 0)⟩
  · obtain ⟨hat, hnext⟩ : (bisect holds 0 size = 0 ∨ holds (bisect holds 0 size) = true) ∧
        (bisect holds 0 size + 1 < size → holds (bisect holds 0 size + 1) = false) :=
      bisect_turns (Nat.pos_of_ne_zero hempty) (by omega) (by omega) (by omega)
        fun h => absurd h (Nat.lt_irrefl size)
    rw [if_neg hempty]
    simp only
    cases hend : holds (bisect holds 0 size) with
    | true =>
      simp only [if_true]
      exact ⟨fun i hi => Nat.succ.inj hi ▸ hend, hnext⟩
    | false =>
      simp only [Bool.false_eq_true, if_false]
      have hzero : bisect holds 0 size = 0 := hat.resolve_right (Bool.eq_false_iff.mp hend)
      exact ⟨fun i hi => absurd (hzero.symm.trans hi) (by omega), fun _ => hend⟩

end CompileLog

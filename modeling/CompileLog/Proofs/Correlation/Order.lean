import CompileLog.Proofs.Correlation.Coverage

/-!
# The order of the input

A correlation sorts its instructions and its anchors, so it does not depend on the order in which
they come. Anchors at one offset are folded into a range, for which their order does not matter
either. Instructions at one offset are only kept in the order in which they came, so two lists of
instructions give one correlation exactly if they agree offset by offset.
-/

namespace CompileLog.Correlation

section Sorting

variable {α : Type} {key : α → UInt64}

/-- Sorting by a key leaves what has one key in its order. -/
theorem filter_mergeSort_key (key : α → UInt64) (xs : List α) (o : UInt64) :
    ((xs.mergeSort fun a b => key a ≤ key b).filter fun a => key a = o) =
      xs.filter fun a => key a = o := by
  have hequal : (xs.filter fun a => key a = o).Pairwise fun a b => decide (key a ≤ key b) := by
    refine List.pairwise_of_forall_mem_list fun a ha b hb => ?_
    have hao : key a = o := of_decide_eq_true (List.mem_filter.mp ha).2
    have hbo : key b = o := of_decide_eq_true (List.mem_filter.mp hb).2
    rw [hao, hbo]
    exact decide_eq_true (UInt64.le_refl o)
  have htrans : ∀ a b c, decide (key a ≤ key b) → decide (key b ≤ key c) →
      decide (key a ≤ key c) := by
    intro a b c hab hbc
    exact decide_eq_true (UInt64.le_trans (of_decide_eq_true hab) (of_decide_eq_true hbc))
  have htotal : ∀ a b, (decide (key a ≤ key b) || decide (key b ≤ key a)) = true := by
    intro a b
    rw [Bool.or_eq_true, decide_eq_true_eq, decide_eq_true_eq]
    exact UInt64.le_total _ _
  have hsublist : (xs.filter fun a => key a = o).Sublist
      (xs.mergeSort fun a b => key a ≤ key b) :=
    List.sublist_mergeSort htrans htotal hequal List.filter_sublist
  have hkept := hsublist.filter fun a => key a = o
  rw [List.filter_filter, List.filter_congr fun a _ => Bool.and_self _] at hkept
  exact (hkept.eq_of_length ((List.mergeSort_perm xs _).symm.filter _).length_eq).symm

/-- Two lists in the order of a key are equal if they agree key by key. By induction on the first
list. -/
theorem eq_of_filter_key_eq {xs ys : List α} (hxs : xs.Pairwise fun a b => key a ≤ key b)
    (hys : ys.Pairwise fun a b => key a ≤ key b)
    (h : ∀ o, (xs.filter fun a => key a = o) = ys.filter fun a => key a = o) : xs = ys := by
  have hmem : ∀ {l l' : List α},
      (∀ o, (l.filter fun a => key a = o) = l'.filter fun a => key a = o) →
        ∀ a ∈ l, a ∈ l' := fun hl a ha => by
    have hfiltered : a ∈ List.filter (fun b => key b = key a) _ :=
      List.mem_filter.mpr ⟨ha, decide_eq_true rfl⟩
    rw [hl] at hfiltered
    exact (List.mem_filter.mp hfiltered).1
  induction xs generalizing ys with
  | nil =>
    cases ys with
    | nil => rfl
    | cons y rest' =>
      exact absurd (hmem (fun o => (h o).symm) y List.mem_cons_self) List.not_mem_nil
  | cons x rest ih =>
    cases ys with
    | nil => exact absurd (hmem h x List.mem_cons_self) List.not_mem_nil
    | cons y rest' =>
      obtain ⟨hfirst, hrest⟩ := List.pairwise_cons.mp hxs
      obtain ⟨hfirst', hrest'⟩ := List.pairwise_cons.mp hys
      -- Each of the two that come first stands in the other list too, so neither key is greater.
      have hle : key x ≤ key y := by
        rcases List.mem_cons.mp (hmem (fun o => (h o).symm) y List.mem_cons_self) with heq | hin
        · exact heq ▸ UInt64.le_refl _
        · exact hfirst y hin
      have hge : key y ≤ key x := by
        rcases List.mem_cons.mp (hmem h x List.mem_cons_self) with heq | hin
        · exact heq ▸ UInt64.le_refl _
        · exact hfirst' x hin
      have hkey : key x = key y := UInt64.le_antisymm hle hge
      have hheads := h (key x)
      rw [List.filter_cons_of_pos (by simp), List.filter_cons_of_pos (by simp [hkey])] at hheads
      obtain ⟨rfl, htails⟩ := List.cons.inj hheads
      refine congrArg (List.cons x) (ih hrest hrest' fun o => ?_)
      by_cases ho : key x = o
      · rwa [← ho]
      · have hlater := h o
        rwa [List.filter_cons_of_neg (by simpa using ho),
          List.filter_cons_of_neg (by simpa using ho)] at hlater

/-- Two lists sorted by a key are equal exactly if the lists agree key by key. -/
theorem mergeSort_key_eq_iff (key : α → UInt64) {xs ys : List α} :
    (xs.mergeSort fun a b => key a ≤ key b) = (ys.mergeSort fun a b => key a ≤ key b) ↔
      ∀ o, (xs.filter fun a => key a = o) = ys.filter fun a => key a = o := by
  constructor
  · intro h o
    rw [← filter_mergeSort_key key xs, h, filter_mergeSort_key]
  · intro h
    refine eq_of_filter_key_eq (pairwise_mergeSort_key key xs) (pairwise_mergeSort_key key ys) ?_
    simpa only [filter_mergeSort_key] using h

end Sorting

variable {instructions instructions' : List NativeInstruction} {anchors anchors' : List Anchor}

/-- The order of the anchors does not matter for their groups. -/
theorem groupAnchors_perm (h : anchors.Perm anchors') :
    groupAnchors anchors = groupAnchors anchors' :=
  ((isGrouping_groupAnchors anchors).perm h).unique (isGrouping_groupAnchors anchors')

/-- Whatever the order of the anchors, two lists of instructions give one correlation exactly if
they agree offset by offset. -/
theorem correlate_eq_iff (hanchors : anchors.Perm anchors') :
    correlate instructions anchors = correlate instructions' anchors' ↔
      ∀ o, (instructions.filter fun i => i.offset = o) =
        instructions'.filter fun i => i.offset = o := by
  rw [← mergeSort_key_eq_iff NativeInstruction.offset]
  constructor
  · intro h
    rw [← flatMap_instructions_correlate instructions anchors, h, flatMap_instructions_correlate]
  · intro h
    have hlength : instructions.length = instructions'.length := by
      rw [← List.length_mergeSort instructions, h, List.length_mergeSort]
    simp only [correlate]
    rw [h, groupAnchors_perm hanchors, hanchors.isEmpty_eq, hlength]

/-- A correlation does not depend on the order in which instructions and anchors come, as long as no
two instructions start at one offset. Anchors may share offsets. -/
theorem correlate_perm (hdistinct : instructions.Pairwise fun i j => i.offset ≠ j.offset)
    (hinstructions : instructions.Perm instructions') (hanchors : anchors.Perm anchors') :
    correlate instructions anchors = correlate instructions' anchors' := by
  have hdistinct' : instructions'.Pairwise fun i j => i.offset ≠ j.offset :=
    hinstructions.pairwise hdistinct fun h => Ne.symm h
  -- At one offset there is at most one instruction, so there is nothing to be put in order.
  have hsingle : ∀ {l : List NativeInstruction}, (l.Pairwise fun i j => i.offset ≠ j.offset) →
      ∀ o, (l.filter fun i => i.offset = o).Pairwise fun _ _ => False := by
    intro l hl o
    refine (hl.filter _).imp_of_mem fun hi hj hne => hne ?_
    rw [of_decide_eq_true (List.mem_filter.mp hi).2, of_decide_eq_true (List.mem_filter.mp hj).2]
  refine (correlate_eq_iff hanchors).mpr fun o => ?_
  exact (hinstructions.filter _).eq_of_pairwise (fun _ _ _ _ hfalse _ => hfalse.elim)
    (hsingle hdistinct o) (hsingle hdistinct' o)

/-- Three instructions, none of which comes in its place. -/
def codeScattered : List NativeInstruction :=
  [⟨8, 4, "ret", ""⟩, ⟨0, 4, "push", ""⟩, ⟨4, 4, "mov", ""⟩]

/-- Anchors at two offsets, three of them at one. -/
def anchorsScattered : List Anchor := [⟨7, 4, none⟩, ⟨0, 0, none⟩, ⟨-1, 4, none⟩, ⟨3, 4, some 9⟩]

/-- The correlation is the same for this code in order and for its anchors backwards. -/
theorem correlate_perm_scattered :
    (codeScattered.Pairwise fun i j => i.offset ≠ j.offset) ∧
      codeScattered.Perm [⟨0, 4, "push", ""⟩, ⟨4, 4, "mov", ""⟩, ⟨8, 4, "ret", ""⟩] ∧
      correlate codeScattered anchorsScattered =
        correlate [⟨0, 4, "push", ""⟩, ⟨4, 4, "mov", ""⟩, ⟨8, 4, "ret", ""⟩]
          anchorsScattered.reverse := by
  have hdistinct : codeScattered.Pairwise fun i j => i.offset ≠ j.offset := by decide
  have hperm : codeScattered.Perm [⟨0, 4, "push", ""⟩, ⟨4, 4, "mov", ""⟩, ⟨8, 4, "ret", ""⟩] := by
    decide
  exact ⟨hdistinct, hperm, correlate_perm hdistinct hperm (List.reverse_perm _).symm⟩

end CompileLog.Correlation

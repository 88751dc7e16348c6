import CompileLog.Proofs.Correlation.Anchored
import CompileLog.Proofs.Correlation.Coverage
import Mathlib.Data.List.Dedup

/-!
# What a correlation counts

The walk counts an anchor offset that governs nothing in one of two places: where a later offset
is reached with it, and at the end, where it is left over. The two counts are read off the anchors
and instructions here, without the walk: what is left over are the offsets behind all instructions,
and of these the ones past the end are those that the code does not reach. The instructions that
are counted are those that start inside what the ones before them cover.
-/

namespace CompileLog.Correlation

variable {anchors : List Anchor} {instructions : List NativeInstruction}

/-! ### Offsets -/

/-- The offsets of some anchors, each once. -/
def anchorOffsets (anchors : List Anchor) : List UInt64 := (anchors.map Anchor.offset).dedup

/-- An anchor offset governs one of some instructions. -/
def governsSome (anchors : List Anchor) (instructions : List NativeInstruction)
    (offset : UInt64) : Bool :=
  instructions.any fun i => governing? anchors i.offset = some offset

/-- The groups of anchors have each offset once. -/
theorem offsets_groupAnchors_perm (anchors : List Anchor) :
    ((groupAnchors anchors).map AnchorGroup.offset).Perm (anchorOffsets anchors) := by
  have hgrouping := isGrouping_groupAnchors anchors
  have hnodup : ((groupAnchors anchors).map AnchorGroup.offset).Nodup :=
    List.pairwise_map.mpr (hgrouping.increasing.imp UInt64.ne_of_lt)
  refine (List.perm_ext_iff_of_nodup hnodup (List.nodup_dedup _)).mpr fun o => ?_
  rw [List.mem_dedup, List.mem_map, List.mem_map]
  exact hgrouping.mem_offsets_iff o

/-- Groups are counted by their offsets. -/
theorem countP_groupAnchors (p : UInt64 → Bool) (anchors : List Anchor) :
    ((groupAnchors anchors).countP fun g => p g.offset) = (anchorOffsets anchors).countP p := by
  rw [← (offsets_groupAnchors_perm anchors).countP_eq, List.countP_map]
  rfl

/-! ### Offsets past the end -/

/-- The groups that a walk leaves ahead of an instruction are those behind it. -/
theorem Walk.leftAt_eq_filter {w : Walk}
    (h : w.ahead.Pairwise fun g g' => g.offset < g'.offset) (i : NativeInstruction) :
    w.leftAt i = w.ahead.filter fun g => ¬ g.offset ≤ i.offset := by
  have hreached : (w.reachedAt i).filter (fun g => ¬ g.offset ≤ i.offset) = [] :=
    List.filter_eq_nil_iff.mpr fun g hg => by simpa using List.mem_takeWhile_imp hg
  have hleft : (w.leftAt i).filter (fun g => ¬ g.offset ≤ i.offset) = w.leftAt i :=
    List.filter_eq_self.mpr fun g hg => decide_eq_true (not_le_of_mem_dropWhile h g hg)
  rw [← w.reachedAt_append_leftAt i, List.filter_append, hreached, hleft, List.nil_append]

/-- After a walk the groups behind all instructions are still ahead. By induction on the
instructions. -/
theorem Walk.ahead_foldl (anchored : Bool) (instructions : List NativeInstruction) {w : Walk}
    (h : w.ahead.Pairwise fun g g' => g.offset < g'.offset) :
    (instructions.foldl (Walk.step anchored) w).ahead =
      w.ahead.filter fun g => instructions.all fun i => ¬ g.offset ≤ i.offset := by
  induction instructions generalizing w with
  | nil => exact (List.filter_eq_self.mpr fun _ _ => rfl).symm
  | cons i rest ih =>
    have hahead : (w.step anchored i).ahead = w.ahead.filter fun g => ¬ g.offset ≤ i.offset :=
      Walk.leftAt_eq_filter h i
    rw [List.foldl_cons, ih (hahead ▸ h.filter _), hahead, List.filter_filter]
    exact List.filter_congr fun g _ => (List.all_cons.trans (Bool.and_comm _ _)).symm

/-- A walk covers what its instructions cover. By induction on the instructions. -/
theorem Walk.covered_foldl (anchored : Bool) (instructions : List NativeInstruction) (w : Walk) :
    (instructions.foldl (Walk.step anchored) w).covered = coveredBy w.covered instructions := by
  induction instructions generalizing w with
  | nil => rfl
  | cons i rest ih =>
    rw [List.foldl_cons, ih, Walk.covered_step]
    rfl

/-- A correlation counts past the end the groups behind all instructions that do not lie in front of
the end of the code. -/
theorem pastEnd_correlate (instructions : List NativeInstruction) (anchors : List Anchor) :
    (correlate instructions anchors).anomalies.pastEnd =
      (groupAnchors anchors).countP fun g =>
        (instructions.all fun i => ¬ g.offset ≤ i.offset) &&
          decide (codeEnd instructions ≤ g.offset.toNat) := by
  have hmem (k : NativeInstruction) :
      k ∈ instructions ↔ k ∈ instructions.mergeSort fun i j => i.offset ≤ j.offset :=
    List.mem_mergeSort.symm
  have hahead := Walk.ahead_foldl (!anchors.isEmpty)
    (instructions.mergeSort fun i j => i.offset ≤ j.offset)
    (w := .start (groupAnchors anchors)) (isGrouping_groupAnchors anchors).increasing
  have hcovered := Walk.covered_foldl (!anchors.isEmpty)
    (instructions.mergeSort fun i j => i.offset ≤ j.offset) (.start (groupAnchors anchors))
  have hend : coveredBy 0 (instructions.mergeSort fun i j => i.offset ≤ j.offset) =
      codeEnd instructions := coveredBy_zero hmem
  simp only [correlate]
  rw [hahead, hcovered]
  simp only [Walk.start, hend, (List.mergeSort_perm instructions _).all_eq, List.filter_filter,
    ← List.countP_eq_length_filter, Bool.and_comm]

/-- An anchor offset that the code does not reach lies behind all instructions exactly if it governs
none: where it lies at the start of one, that one is empty and at the end of the code, and is
governed by it. -/
theorem behind_iff_not_governsSome {o : UInt64} (ho : ∃ a ∈ anchors, a.offset = o)
    (hend : codeEnd instructions ≤ o.toNat) :
    (∀ i ∈ instructions, ¬ o ≤ i.offset) ↔ governsSome anchors instructions o = false := by
  rw [Bool.eq_false_iff, Ne, governsSome, List.any_eq_true]
  constructor
  · rintro hbehind ⟨i, hi, hgoverns⟩
    exact hbehind i hi (governing?_eq_some_iff.mp (of_decide_eq_true hgoverns)).2.1
  · intro hidle i hi hle
    have hstop : i.offset.toNat ≤ codeEnd instructions :=
      (Nat.le_add_right _ _).trans (stop_le_codeEnd i hi)
    have hstart : o = i.offset :=
      UInt64.le_antisymm hle (UInt64.le_iff_toNat_le.mpr (hstop.trans hend))
    refine hidle ⟨i, hi, decide_eq_true (governing?_eq_some_iff.mpr ⟨ho, hle, fun a _ ha => ?_⟩)⟩
    rwa [hstart]

/-- The offsets counted past the end are those that govern nothing and do not lie in front of the
end of the code. -/
theorem pastEnd_eq_countP_offsets (instructions : List NativeInstruction) (anchors : List Anchor) :
    (correlate instructions anchors).anomalies.pastEnd =
      (anchorOffsets anchors).countP fun o =>
        !governsSome anchors instructions o && decide (codeEnd instructions ≤ o.toNat) := by
  rw [pastEnd_correlate, ← countP_groupAnchors]
  refine List.countP_congr fun g hg => ?_
  have hanchor := ((isGrouping_groupAnchors anchors).mem_offsets_iff g.offset).mp ⟨g, hg, rfl⟩
  simp only [Bool.and_eq_true, List.all_eq_true, decide_eq_true_eq, Bool.not_eq_true']
  exact and_congr_left fun hend => behind_iff_not_governsSome hanchor hend

/-! ### Instructions inside others -/

/-- The instruction at a position starts in front of the greatest end of those before it. -/
def startsInside (ordered : List NativeInstruction) (n : Nat) : Bool :=
  ordered[n]?.any fun i => i.offset.toNat < codeEnd (ordered.take n)

/-- Counting while walking is counting the positions. By induction on the instructions. -/
theorem overlapsFrom_eq_countP (covered : Nat) (ordered : List NativeInstruction) :
    overlapsFrom covered ordered = (List.range ordered.length).countP fun n =>
      ordered[n]?.any fun i => i.offset.toNat < coveredBy covered (ordered.take n) := by
  induction ordered generalizing covered with
  | nil => rfl
  | cons i rest ih =>
    rw [overlapsFrom, ih, List.length_cons, List.range_succ_eq_map, List.countP_cons,
      List.countP_map, Nat.add_comm]
    congr 1
    by_cases hlt : i.offset.toNat < covered <;> simp [coveredBy, hlt]

/-- From the start of the code on, what is covered before an instruction is the code before it. -/
theorem overlapsFrom_zero (ordered : List NativeInstruction) :
    overlapsFrom 0 ordered = (List.range ordered.length).countP (startsInside ordered) := by
  rw [overlapsFrom_eq_countP]
  refine List.countP_congr fun n _ => ?_
  rw [startsInside, coveredBy_zero fun _ => Iff.rfl]

/-! ### All counts -/

/-- Every anchor offset is accounted for: it governs an instruction, or is counted as misaligned, or
is counted past the end, which it is exactly if it governs no instruction and is not below the
greatest end of an instruction. The instructions counted as overlapping are those that, in offset
order and as they came where offsets are equal, start in front of the greatest end of the ones
before. So there are no more problems of a kind than anchors or instructions. The ends of
instructions are not bounded here. -/
theorem anomalies_accounted (instructions : List NativeInstruction) (anchors : List Anchor) :
    let found := (correlate instructions anchors).anomalies
    let offsets := anchorOffsets anchors
    let ordered := instructions.mergeSort fun i j => i.offset ≤ j.offset
    offsets.length =
        offsets.countP (governsSome anchors instructions) + found.misaligned + found.pastEnd ∧
      found.pastEnd = offsets.countP (fun o =>
        !governsSome anchors instructions o && decide (codeEnd instructions ≤ o.toNat)) ∧
      found.overlapping = (List.range ordered.length).countP (startsInside ordered) ∧
      found.misaligned + found.pastEnd ≤ anchors.length ∧
      found.overlapping ≤ instructions.length := by
  intro found offsets ordered
  have hoffsets : offsets.length =
      offsets.countP (governsSome anchors instructions) + found.misaligned + found.pastEnd := by
    have haccounted := accounted_correlate instructions anchors
    have hlength := (offsets_groupAnchors_perm anchors).length_eq
    rw [List.length_map, ← haccounted] at hlength
    rw [← hlength, ← countP_groupAnchors]
    rfl
  have hoverlapping : found.overlapping =
      (List.range ordered.length).countP (startsInside ordered) :=
    (overlapping_correlate instructions anchors).trans (overlapsFrom_zero ordered)
  refine ⟨hoffsets, pastEnd_eq_countP_offsets instructions anchors, hoverlapping, ?_, ?_⟩
  · have hfewer : offsets.length ≤ anchors.length :=
      (List.dedup_sublist _).length_le.trans_eq (List.length_map _)
    omega
  · rw [hoverlapping]
    refine List.countP_le_length.trans_eq ?_
    rw [List.length_range, List.length_mergeSort]

end CompileLog.Correlation

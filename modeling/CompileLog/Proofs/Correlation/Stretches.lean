import CompileLog.Proofs.Correlation.Groups
import Mathlib.Data.List.TakeWhile

/-!
# What the walk lays down

The walk keeps the groups that it has passed only as the last of them. This file proves that
after each instruction that group is the one of the governing offset, so that the stretches
are those which the anchors alone determine.
-/

namespace CompileLog.Correlation

/-- The gap between the bytes covered so far and an instruction, if there is one. -/
def gapBefore (covered : Nat) (i : NativeInstruction) : List Stretch :=
  if covered < i.offset.toNat then [.gap covered i.offset.toNat] else []

/-- The stretches of instructions in offset order, behind bytes that are covered already. -/
def stretchesOf (anchors : List Anchor) : Nat → List NativeInstruction → List Stretch
  | _, [] => []
  | covered, i :: rest =>
    gapBefore covered i ++
      .code i (governing? anchors i.offset) (nearestMapping anchors i.offset) ::
        stretchesOf anchors (max covered i.stop) rest

/-- A walk has come past some groups: with those ahead they are the groups of the anchors, and
the last of them governs. -/
structure Walk.Past (anchors : List Anchor) (passed : List AnchorGroup) (w : Walk) : Prop where
  /-- No group is lost. -/
  grouping : IsGrouping anchors (passed ++ w.ahead)
  /-- The last group passed governs. -/
  current_eq : w.current = passed.getLast?

/-- Before the first instruction no group is passed. -/
theorem Walk.past_start (anchors : List Anchor) :
    Past anchors [] (.start (groupAnchors anchors)) :=
  ⟨isGrouping_groupAnchors anchors, rfl⟩

/-- Past the groups at or before an offset only groups behind it remain. -/
theorem not_le_of_mem_dropWhile {groups : List AnchorGroup} {offset : UInt64}
    (h : groups.Pairwise fun g g' => g.offset < g'.offset) :
    ∀ g ∈ groups.dropWhile (fun g => g.offset ≤ offset), ¬ g.offset ≤ offset := by
  induction groups with
  | nil => simp
  | cons first rest ih =>
    obtain ⟨hbehind, hrest⟩ := List.pairwise_cons.mp h
    by_cases hle : first.offset ≤ offset
    · simpa only [List.dropWhile_cons, hle, decide_true, if_true] using ih hrest
    · simp only [List.dropWhile_cons, hle, decide_false, Bool.false_eq_true, if_false]
      intro g hg
      rcases List.mem_cons.mp hg with rfl | hg
      · exact hle
      · intro hg'
        exact hle (UInt64.le_trans (UInt64.le_of_lt (hbehind g hg)) hg')

/-- The groups that a walk reaches at an instruction. -/
def Walk.reachedAt (w : Walk) (i : NativeInstruction) : List AnchorGroup :=
  w.ahead.takeWhile fun g => g.offset ≤ i.offset

/-- The groups that a walk leaves ahead of an instruction. -/
def Walk.leftAt (w : Walk) (i : NativeInstruction) : List AnchorGroup :=
  w.ahead.dropWhile fun g => g.offset ≤ i.offset

/-- What is reached and what is left is all that was ahead. -/
theorem Walk.reachedAt_append_leftAt (w : Walk) (i : NativeInstruction) :
    w.reachedAt i ++ w.leftAt i = w.ahead :=
  List.takeWhile_append_dropWhile

/-- With the groups reached at an instruction, those passed are the groups at or before it, and the
last of them is the group of the offset that governs it. -/
theorem Walk.Past.reach {anchors : List Anchor} {passed : List AnchorGroup} {w : Walk}
    (h : w.Past anchors passed) {i : NativeInstruction}
    (hpassed : ∀ g ∈ passed, g.offset ≤ i.offset) :
    (w.step (!anchors.isEmpty) i).Past anchors (passed ++ w.reachedAt i) ∧
      (∀ g ∈ passed ++ w.reachedAt i, g.offset ≤ i.offset) ∧
      (∀ g ∈ w.leftAt i, ¬ g.offset ≤ i.offset) ∧
      (passed ++ w.reachedAt i).getLast? =
        (governing? anchors i.offset).map (groupAt anchors) := by
  have hgrouping : IsGrouping anchors ((passed ++ w.reachedAt i) ++ w.leftAt i) := by
    rw [List.append_assoc, w.reachedAt_append_leftAt]
    exact h.grouping
  have hbefore : ∀ g ∈ passed ++ w.reachedAt i, g.offset ≤ i.offset := by
    intro g hg
    rcases List.mem_append.mp hg with hg | hg
    · exact hpassed g hg
    · simpa using List.mem_takeWhile_imp hg
  have hbehind : ∀ g ∈ w.leftAt i, ¬ g.offset ≤ i.offset :=
    not_le_of_mem_dropWhile (List.pairwise_append.mp h.grouping.increasing).2.1
  have hcurrent : (w.reachedAt i).getLast?.or w.current = (passed ++ w.reachedAt i).getLast? := by
    rw [List.getLast?_append, h.current_eq]
  exact ⟨⟨hgrouping, hcurrent⟩, hbefore, hbehind, hgrouping.getLast?_passed hbefore hbehind⟩

/-- A step passes the groups at or before the instruction, and lays it down with the offset
that governs it. -/
theorem Walk.Past.step {anchors : List Anchor} {passed : List AnchorGroup} {w : Walk}
    (h : w.Past anchors passed) {i : NativeInstruction}
    (hpassed : ∀ g ∈ passed, g.offset ≤ i.offset) :
    ∃ passed', (w.step (!anchors.isEmpty) i).Past anchors passed' ∧
      (∀ g ∈ passed', g.offset ≤ i.offset) ∧
      (w.step (!anchors.isEmpty) i).stretches =
        .code i (governing? anchors i.offset) (nearestMapping anchors i.offset) ::
          gapBefore w.covered i ++ w.stretches := by
  obtain ⟨hpast, hbefore, _, hgoverns⟩ := h.reach hpassed
  have hcurrent : (w.reachedAt i).getLast?.or w.current = (passed ++ w.reachedAt i).getLast? :=
    hpast.current_eq
  refine ⟨passed ++ w.reachedAt i, hpast, hbefore, ?_⟩
  have hmap : ((governing? anchors i.offset).map (groupAt anchors)).map AnchorGroup.offset =
      governing? anchors i.offset := by
    cases governing? anchors i.offset <;> rfl
  simp only [Walk.step]
  rw [show (w.ahead.takeWhile fun g => g.offset ≤ i.offset) = w.reachedAt i from rfl, hcurrent,
    hgoverns, hmap, mappingOf_governing]
  rfl

/-- A step covers what the instruction covers. -/
theorem Walk.covered_step (w : Walk) (anchored : Bool) (i : NativeInstruction) :
    (w.step anchored i).covered = max w.covered i.stop := rfl

/-- Over instructions in offset order a walk lays down their stretches. -/
theorem Walk.Past.stretches_foldl {anchors : List Anchor} {instructions : List NativeInstruction}
    (hsorted : instructions.Pairwise fun i j => i.offset ≤ j.offset) {passed : List AnchorGroup}
    {w : Walk} (h : w.Past anchors passed)
    (hpassed : ∀ g ∈ passed, ∀ i ∈ instructions, g.offset ≤ i.offset) :
    (instructions.foldl (Walk.step (!anchors.isEmpty)) w).stretches.reverse =
      w.stretches.reverse ++ stretchesOf anchors w.covered instructions := by
  induction instructions generalizing w passed with
  | nil => simp [stretchesOf]
  | cons i rest ih =>
    obtain ⟨hfirst, hrest⟩ := List.pairwise_cons.mp hsorted
    obtain ⟨passed', hpast, hbefore, hstretches⟩ := h.step fun g hg => hpassed g hg i (by simp)
    have hnext : ∀ g ∈ passed', ∀ j ∈ rest, g.offset ≤ j.offset := fun g hg j hj =>
      UInt64.le_trans (hbefore g hg) (hfirst j hj)
    rw [List.foldl_cons, ih hrest hpast hnext, hstretches, Walk.covered_step, stretchesOf]
    have hgap : (gapBefore w.covered i).reverse = gapBefore w.covered i := by
      unfold gapBefore
      split <;> rfl
    simp [hgap]

/-- The entries of a correlation are those of the stretches of its instructions. -/
theorem entries_correlate (instructions : List NativeInstruction) (anchors : List Anchor) :
    (correlate instructions anchors).entries = entriesOf
      (stretchesOf anchors 0 (instructions.mergeSort fun i j => i.offset ≤ j.offset)) := by
  have h := (Walk.past_start anchors).stretches_foldl
    (pairwise_mergeSort_key NativeInstruction.offset instructions) (by simp)
  simp only [correlate]
  rw [h]
  rfl

end CompileLog.Correlation

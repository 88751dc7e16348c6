import CompileLog.Correlation.Walk
import Mathlib.Data.List.Basic

/-!
# The nearest anchor at or before an offset

The offset that governs a piece of code, and the bytecode that it comes from, can be read
off the anchors alone, without any walk. This file states that reading and proves that the
sorted groups of anchors hold the same.
-/

namespace CompileLog

/-- Of two offsets the maximum is the one that the other does not exceed. -/
instance lawfulOrderMax_uint64 : Std.LawfulOrderMax UInt64 :=
  .of_max_le_iff
    (fun a b c => by simp only [UInt64.le_iff_toNat_le, Max.max]; grind)
    (fun a b => by simp only [Max.max]; grind)

/-- Of two indices the maximum is the one that the other does not exceed. -/
instance lawfulOrderMax_uint32 : Std.LawfulOrderMax UInt32 :=
  .of_max_le_iff
    (fun a b c => by simp only [UInt32.le_iff_toNat_le, Max.max]; grind)
    (fun a b => by simp only [Max.max]; grind)

namespace Correlation

/-- The greatest anchor offset at or before an offset. -/
def governing? (anchors : List Anchor) (offset : UInt64) : Option UInt64 :=
  ((anchors.map Anchor.offset).filter fun o => o ≤ offset).max?

/-- The bytecode indices that are tied to an offset and are not negative. -/
def indicesAt (anchors : List Anchor) (offset : UInt64) : List UInt32 :=
  (anchors.filter fun a => a.offset = offset).filterMap fun a => bytecodeIndex? a.bci

/-- The least and the greatest of some indices. -/
def rangeOf (indices : List UInt32) : Option (UInt32 × UInt32) :=
  match indices.min?, indices.max? with
  | some first, some last => some (first, last)
  | _, _ => none

/-- Where the code at an offset comes from: nothing is known without anchors, code before the
first anchor is prologue, and any other comes from all bytecodes tied to the offset that
governs it. -/
def nearestMapping (anchors : List Anchor) (offset : UInt64) : Mapping :=
  if anchors.isEmpty then .unmapped
  else
    match governing? anchors offset with
    | none => .prologue
    | some o =>
      match rangeOf (indicesAt anchors o) with
      | some (first, last) => .bytecode first last
      | none => .unmapped

/-- An offset governs exactly if it is an anchor offset at or before the one asked for, and no
greater anchor offset is. -/
theorem governing?_eq_some_iff {anchors : List Anchor} {offset o : UInt64} :
    governing? anchors offset = some o ↔
      (∃ a ∈ anchors, a.offset = o) ∧ o ≤ offset ∧
        ∀ a ∈ anchors, a.offset ≤ offset → a.offset ≤ o := by
  simp only [governing?, List.max?_eq_some_iff, List.mem_filter, List.mem_map,
    decide_eq_true_eq, and_assoc, and_congr_right_iff]
  intro _ _
  constructor
  · intro h a ha hle
    exact h a.offset ⟨⟨a, ha, rfl⟩, hle⟩
  · rintro h _ ⟨⟨a, ha, rfl⟩, hle⟩
    exact h a ha hle

/-- Nothing governs an offset exactly if all anchors lie behind it. -/
theorem governing?_eq_none_iff {anchors : List Anchor} {offset : UInt64} :
    governing? anchors offset = none ↔ ∀ a ∈ anchors, ¬ a.offset ≤ offset := by
  simp [governing?, List.max?_eq_none_iff]

/-- One index more widens the range. -/
theorem rangeOf_cons (bci : UInt32) (indices : List UInt32) :
    rangeOf (bci :: indices) = some (widen (rangeOf indices) bci) := by
  cases indices with
  | nil => rfl
  | cons next rest =>
    simp only [rangeOf, List.min?_cons, List.max?_cons, Option.elim, widen]

/-- The order of the indices does not matter for their range. -/
theorem rangeOf_perm {left right : List UInt32} (h : left.Perm right) :
    rangeOf left = rangeOf right := by
  have hmin : left.min? = right.min? := by
    ext bci
    simp only [List.min?_eq_some_iff, h.mem_iff]
  have hmax : left.max? = right.max? := by
    ext bci
    simp only [List.max?_eq_some_iff, h.mem_iff]
  rw [rangeOf, rangeOf, hmin, hmax]

/-- The group of the anchors at one offset. -/
def groupAt (anchors : List Anchor) (offset : UInt64) : AnchorGroup :=
  ⟨offset, rangeOf (indicesAt anchors offset)⟩

/-- An anchor at the group's offset joins it, any other does not. -/
theorem groupAt_cons (a : Anchor) (anchors : List Anchor) (offset : UInt64) :
    groupAt (a :: anchors) offset =
      if a.offset = offset then (groupAt anchors offset).add a else groupAt anchors offset := by
  by_cases h : a.offset = offset
  · cases hbci : bytecodeIndex? a.bci with
    | none => simp [groupAt, indicesAt, AnchorGroup.add, h, hbci]
    | some bci => simp [groupAt, indicesAt, AnchorGroup.add, h, hbci, rangeOf_cons]
  · simp [groupAt, indicesAt, h]

/-- An offset without anchors has an empty group. -/
theorem groupAt_of_forall_ne {anchors : List Anchor} {offset : UInt64}
    (h : ∀ a ∈ anchors, a.offset ≠ offset) : groupAt anchors offset = ⟨offset, none⟩ := by
  have hnone : (anchors.filter fun a => a.offset = offset) = [] := by
    rw [List.filter_eq_nil_iff]
    intro a ha
    simpa using h a ha
  simp [groupAt, indicesAt, hnone, rangeOf]

/-- Joining a group does not move it. -/
@[simp] theorem AnchorGroup.offset_add (g : AnchorGroup) (a : Anchor) :
    (g.add a).offset = g.offset := by
  unfold AnchorGroup.add
  split <;> rfl

/-- Groups hold exactly the anchors: one group for each anchor offset, in offset order, with
the range of all indices at its offset. -/
structure IsGrouping (anchors : List Anchor) (groups : List AnchorGroup) : Prop where
  /-- The offsets increase. -/
  increasing : groups.Pairwise fun g g' => g.offset < g'.offset
  /-- Each group holds all anchors at its offset. -/
  eq_groupAt : ∀ g ∈ groups, g = groupAt anchors g.offset
  /-- The offsets are those of the anchors. -/
  mem_offsets_iff : ∀ o, (∃ g ∈ groups, g.offset = o) ↔ ∃ a ∈ anchors, a.offset = o

/-- An anchor before all groups makes a group of its own. -/
theorem IsGrouping.cons_apart {a : Anchor} {anchors : List Anchor} {groups : List AnchorGroup}
    (h : IsGrouping anchors groups) (hlt : ∀ g ∈ groups, a.offset < g.offset) :
    IsGrouping (a :: anchors) (AnchorGroup.add ⟨a.offset, none⟩ a :: groups) := by
  have hne : ∀ b ∈ anchors, b.offset ≠ a.offset := by
    intro b hb heq
    obtain ⟨g, hg, hoffset⟩ := (h.mem_offsets_iff b.offset).mpr ⟨b, hb, rfl⟩
    have hapart := hlt g hg
    rw [hoffset, heq] at hapart
    exact UInt64.lt_irrefl _ hapart
  have hgroup := groupAt_cons a anchors a.offset
  rw [if_pos rfl, groupAt_of_forall_ne hne] at hgroup
  refine ⟨List.pairwise_cons.mpr ⟨?_, h.increasing⟩, ?_, ?_⟩
  · intro g hg
    rw [AnchorGroup.offset_add]
    exact hlt g hg
  · intro g hg
    rcases List.mem_cons.mp hg with rfl | hg
    · rw [AnchorGroup.offset_add, hgroup]
    · rw [groupAt_cons, if_neg (UInt64.ne_of_lt (hlt g hg))]
      exact h.eq_groupAt g hg
  · intro o
    simp only [List.mem_cons, exists_eq_or_imp, AnchorGroup.offset_add, h.mem_offsets_iff]

/-- An anchor at the offset of the first group joins it. -/
theorem IsGrouping.cons_join {a : Anchor} {anchors : List Anchor} {g : AnchorGroup}
    {groups : List AnchorGroup} (h : IsGrouping anchors (g :: groups))
    (heq : g.offset = a.offset) : IsGrouping (a :: anchors) (g.add a :: groups) := by
  obtain ⟨hbehind, hincreasing⟩ := List.pairwise_cons.mp h.increasing
  refine ⟨List.pairwise_cons.mpr ⟨?_, hincreasing⟩, ?_, ?_⟩
  · intro g' hg'
    rw [AnchorGroup.offset_add]
    exact hbehind g' hg'
  · intro g' hg'
    rcases List.mem_cons.mp hg' with rfl | hg'
    · rw [AnchorGroup.offset_add, groupAt_cons, if_pos heq.symm, ← h.eq_groupAt g (by simp)]
    · have hlt := hbehind g' hg'
      rw [heq] at hlt
      rw [groupAt_cons, if_neg (UInt64.ne_of_lt hlt)]
      exact h.eq_groupAt g' (List.mem_cons_of_mem _ hg')
  · intro o
    have hmem := h.mem_offsets_iff o
    simp only [List.mem_cons, exists_eq_or_imp, AnchorGroup.offset_add, heq] at hmem ⊢
    rw [← hmem]
    simp

/-- Anchors in offset order fall into their groups. -/
theorem isGrouping_groupSorted {anchors : List Anchor}
    (h : anchors.Pairwise fun a b => a.offset ≤ b.offset) :
    IsGrouping anchors (groupSorted anchors) := by
  induction anchors with
  | nil => exact ⟨.nil, by simp [groupSorted], by simp [groupSorted]⟩
  | cons a rest ih =>
    obtain ⟨hfirst, hrest⟩ := List.pairwise_cons.mp h
    have hgroups := ih hrest
    unfold groupSorted
    cases hsorted : groupSorted rest with
    | nil =>
      rw [hsorted] at hgroups
      exact hgroups.cons_apart (by simp)
    | cons g groups =>
      rw [hsorted] at hgroups
      obtain ⟨b, hb, hoffset⟩ := (hgroups.mem_offsets_iff g.offset).mp ⟨g, by simp, rfl⟩
      have hle : a.offset ≤ g.offset := by
        rw [← hoffset]
        exact hfirst b hb
      by_cases hjoin : g.offset = a.offset
      · simp only [hjoin, if_true]
        exact hgroups.cons_join hjoin
      · simp only [hjoin, if_false]
        have hlt : a.offset < g.offset := UInt64.lt_of_le_of_ne hle (Ne.symm hjoin)
        apply hgroups.cons_apart
        intro g' hg'
        rcases List.mem_cons.mp hg' with rfl | hg'
        · exact hlt
        · exact UInt64.lt_trans hlt ((List.pairwise_cons.mp hgroups.increasing).1 g' hg')

/-- The order in which anchors arrive does not matter for what their groups hold. -/
theorem IsGrouping.perm {left right : List Anchor} {groups : List AnchorGroup}
    (h : IsGrouping left groups) (hperm : left.Perm right) : IsGrouping right groups := by
  refine ⟨h.increasing, ?_, ?_⟩
  · intro g hg
    have hrange : rangeOf (indicesAt left g.offset) = rangeOf (indicesAt right g.offset) :=
      rangeOf_perm ((hperm.filter _).filterMap _)
    rw [groupAt, ← hrange]
    exact h.eq_groupAt g hg
  · intro o
    simp only [h.mem_offsets_iff, hperm.mem_iff]

/-- A group of a grouping is the group of an anchor offset. -/
theorem IsGrouping.mem_iff {anchors : List Anchor} {groups : List AnchorGroup}
    (h : IsGrouping anchors groups) {g : AnchorGroup} :
    g ∈ groups ↔ (∃ a ∈ anchors, a.offset = g.offset) ∧ g = groupAt anchors g.offset := by
  constructor
  · intro hg
    exact ⟨(h.mem_offsets_iff g.offset).mp ⟨g, hg, rfl⟩, h.eq_groupAt g hg⟩
  · rintro ⟨hanchor, hgroup⟩
    obtain ⟨g', hg', hoffset⟩ := (h.mem_offsets_iff g.offset).mpr hanchor
    rwa [hgroup, ← hoffset, ← h.eq_groupAt g' hg']

/-- Anchors have one grouping. -/
theorem IsGrouping.unique {anchors : List Anchor} {groups groups' : List AnchorGroup}
    (h : IsGrouping anchors groups) (h' : IsGrouping anchors groups') : groups = groups' := by
  have hnodup : ∀ {l : List AnchorGroup}, IsGrouping anchors l → l.Nodup := fun hl =>
    hl.increasing.imp fun hlt heq => UInt64.ne_of_lt hlt (congrArg AnchorGroup.offset heq)
  have hperm : groups.Perm groups' :=
    (List.perm_ext_iff_of_nodup (hnodup h) (hnodup h')).mpr fun g => h.mem_iff.trans h'.mem_iff.symm
  exact hperm.eq_of_pairwise
    (fun _ _ _ _ hlt hgt => absurd (UInt64.lt_trans hlt hgt) (UInt64.lt_irrefl _))
    h.increasing h'.increasing

/-- Sorting by a key puts the keys in order. -/
theorem pairwise_mergeSort_key {α : Type} (key : α → UInt64) (xs : List α) :
    (xs.mergeSort fun a b => key a ≤ key b).Pairwise fun a b => key a ≤ key b := by
  have h := @List.pairwise_mergeSort α (fun a b => decide (key a ≤ key b))
    (fun a b c hab hbc => by
      simp only [decide_eq_true_eq] at hab hbc ⊢
      exact UInt64.le_trans hab hbc)
    (fun a b => by
      simp only [Bool.or_eq_true, decide_eq_true_eq]
      exact UInt64.le_total _ _) xs
  simpa only [decide_eq_true_eq] using h

/-- Anchors in any order fall into their groups. -/
theorem isGrouping_groupAnchors (anchors : List Anchor) :
    IsGrouping anchors (groupAnchors anchors) :=
  (isGrouping_groupSorted (pairwise_mergeSort_key Anchor.offset anchors)).perm
    (List.mergeSort_perm _ _)

/-- The last of the groups at or before an offset is the group of the offset that governs. -/
theorem IsGrouping.getLast?_passed {anchors : List Anchor} {passed ahead : List AnchorGroup}
    (h : IsGrouping anchors (passed ++ ahead)) {offset : UInt64}
    (hpassed : ∀ g ∈ passed, g.offset ≤ offset) (hahead : ∀ g ∈ ahead, ¬ g.offset ≤ offset) :
    passed.getLast? = (governing? anchors offset).map (groupAt anchors) := by
  rcases List.eq_nil_or_concat' passed with rfl | ⟨before, last, rfl⟩
  · have hnone : governing? anchors offset = none := by
      rw [governing?_eq_none_iff]
      intro a ha hle
      obtain ⟨g, hg, hoffset⟩ := (h.mem_offsets_iff a.offset).mpr ⟨a, ha, rfl⟩
      exact hahead g (by simpa using hg) (by rwa [hoffset])
    rw [hnone]
    rfl
  · have hlast : last ∈ (before ++ [last]) ++ ahead := by simp
    have hsome : governing? anchors offset = some last.offset := by
      rw [governing?_eq_some_iff]
      refine ⟨(h.mem_offsets_iff last.offset).mp ⟨last, hlast, rfl⟩, ?_, ?_⟩
      · exact hpassed last (by simp)
      · intro a ha hle
        obtain ⟨g, hg, hoffset⟩ := (h.mem_offsets_iff a.offset).mpr ⟨a, ha, rfl⟩
        rw [← hoffset] at hle ⊢
        have hincreasing := (List.pairwise_append.mp h.increasing).1
        rcases List.mem_append.mp hg with hg | hg
        · rcases List.mem_append.mp hg with hg | hg
          · have hlt := (List.pairwise_append.mp hincreasing).2.2 g hg last (by simp)
            exact UInt64.le_of_lt hlt
          · rw [List.mem_singleton.mp hg]
            exact UInt64.le_refl _
        · exact absurd hle (hahead g hg)
    rw [hsome, Option.map_some, ← h.eq_groupAt last hlast]
    simp

/-- The group of the governing offset maps code as the nearest anchors do. -/
theorem mappingOf_governing (anchors : List Anchor) (offset : UInt64) :
    mappingOf (!anchors.isEmpty) ((governing? anchors offset).map (groupAt anchors)) =
      nearestMapping anchors offset := by
  unfold nearestMapping
  cases anchors with
  | nil => rfl
  | cons a rest =>
    cases governing? (a :: rest) offset with
    | none => rfl
    | some o =>
      cases hrange : rangeOf (indicesAt (a :: rest) o) <;>
        simp only [Option.map_some, mappingOf, AnchorGroup.mapping, groupAt, hrange,
          List.isEmpty_cons, Bool.false_eq_true, if_false]

end Correlation

end CompileLog

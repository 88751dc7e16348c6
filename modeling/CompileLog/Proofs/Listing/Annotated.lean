import CompileLog.Proofs.Correlation.Groups
import CompileLog.Proofs.Listing.Anchors
import Mathlib.Data.List.Nodup

/-!
# Anchors and annotated lines

A line is annotated if one of its comments names a frame. The anchors of a listing lie at its
annotated lines, at each of them and nowhere else, in the order of their offsets. There is one for
each address as long as no annotated address comes back: of annotated lines that follow one another
with one address the last counts, but where an annotated line with another address stands between
them both count.
-/

namespace CompileLog

namespace Listing

/-! ### Annotated lines -/

/-- Whether one of a line's comments names a frame. -/
def Line.isAnnotated (line : Line) : Bool :=
  line.comments.any fun comment => (parseScope? comment).isSome

/-- The annotated lines, as printed. -/
def annotated (l : Listing) : List Line := l.lines.filter Line.isAnnotated

/-- The address of an annotated line comes back behind an annotated line with another one. -/
def AddressReturns (l : Listing) : Prop :=
  ∃ a b c, [a, b, c].Sublist l.annotated ∧ a.address = c.address ∧ a.address ≠ b.address

/-- Lines that are annotated have an outermost frame. -/
theorem Line.isSome_scope? (line : Line) : line.scope?.isSome = line.isAnnotated := by
  unfold Line.scope? Line.isAnnotated
  rw [Bool.eq_iff_iff, List.getLast?_isSome, List.any_eq_true, ne_eq, List.filterMap_eq_nil_iff]
  simp [Option.isSome_iff_ne_none]

/-- Annotated lines, and no others, have an anchor, at their offset. By induction on the lines. -/
theorem offsets_filterMap_anchor? (base : UInt64) (lines : List Line) :
    (lines.filterMap (Line.anchor? base)).map Anchor.offset =
      (lines.filter Line.isAnnotated).map fun line => line.address - base := by
  induction lines with
  | nil => rfl
  | cons line rest ih =>
    have hscope := line.isSome_scope?
    cases hframe : line.scope? with
    | none =>
      rw [hframe] at hscope
      have hnone : line.anchor? base = none := by
        unfold Line.anchor?
        rw [hframe]
        rfl
      rw [List.filterMap_cons_none hnone, List.filter_cons_of_neg (by simp [← hscope]), ih]
    | some frame =>
      rw [hframe] at hscope
      have hsome : line.anchor? base = some ⟨frame.bci, line.address - base, frame.line⟩ := by
        unfold Line.anchor?
        rw [hframe]
        rfl
      rw [List.filterMap_cons_some hsome, List.filter_cons_of_pos hscope.symm, List.map_cons,
        List.map_cons, ih]

/-! ### What counts at each offset -/

/-- Of each offset an anchor counts. By induction on the anchors. -/
theorem mem_offsets_lastOfEach {offset : UInt64} {anchors : List Anchor} :
    offset ∈ (lastOfEach anchors).map Anchor.offset ↔ offset ∈ anchors.map Anchor.offset := by
  fun_induction lastOfEach anchors with
  | case1 => rfl
  | case2 a => rfl
  | case3 a b rest heq ih =>
    rw [ih, List.map_cons (l := b :: rest), List.mem_cons (l := List.map _ (b :: rest)), heq]
    exact ⟨.inr, fun h => h.elim (fun h => h ▸ List.mem_cons_self) id⟩
  | case4 a b rest hne ih => rw [List.map_cons, List.mem_cons, ih, ← List.mem_cons, ← List.map_cons]

/-- What counts has distinct offsets, exactly if no offset comes back behind another one. By
induction on the anchors. -/
theorem nodup_offsets_lastOfEach_iff (anchors : List Anchor) :
    ((lastOfEach anchors).map Anchor.offset).Nodup ↔
      ∀ x y, [x, y, x].Sublist (anchors.map Anchor.offset) → x = y := by
  fun_induction lastOfEach anchors with
  | case1 => simp
  | case2 a => simp
  | case3 a b rest heq ih =>
    rw [ih, List.map_cons]
    refine ⟨fun h x y hxy => ?_, fun h x y hxy => h x y (hxy.cons _)⟩
    rcases List.sublist_cons_iff.mp hxy with hlater | ⟨r, hr, hlater⟩
    · exact h x y hlater
    · -- The first two have one offset, so what returns to the first returns to the second.
      cases hr
      rw [List.map_cons] at hlater
      rcases List.sublist_cons_iff.mp hlater with hrest | ⟨r, hr, _⟩
      · rw [heq] at hrest ⊢
        exact h _ y (hrest.cons_cons _)
      · cases hr
        exact heq
  | case4 a b rest hne ih =>
    rw [List.map_cons, List.nodup_cons, mem_offsets_lastOfEach, ih, List.map_cons]
    constructor
    · rintro ⟨hfirst, h⟩ x y hxy
      rcases List.sublist_cons_iff.mp hxy with hlater | ⟨r, hr, hlater⟩
      · exact h x y hlater
      · cases hr
        exact absurd (hlater.subset (by simp)) hfirst
    · intro h
      refine ⟨fun hmem => ?_, fun x y hxy => h x y (hxy.cons _)⟩
      have hrest : a.offset ∈ rest.map Anchor.offset := (List.mem_cons.mp hmem).resolve_left hne
      exact hne (h _ _ (((List.singleton_sublist.mpr hrest).cons_cons _).cons_cons _))

/-! ### The anchors of a listing -/

section

variable {l : Listing} {base : UInt64} (hbase : l.base? = some base)
include hbase

/-- The anchors are what counts of the anchors of the lines, by offset. -/
theorem anchors_eq : l.anchors =
    (lastOfEach (l.lines.filterMap (Line.anchor? base))).mergeSort
      fun a b => a.offset ≤ b.offset := by
  unfold anchors
  rw [hbase]

/-- The offsets of the anchors are those of the annotated lines. -/
theorem mem_offsets_anchors_iff {offset : UInt64} :
    offset ∈ l.anchors.map Anchor.offset ↔
      ∃ line ∈ l.annotated, base.toNat + offset.toNat = line.address.toNat := by
  rw [anchors_eq hbase, ((List.mergeSort_perm _ _).map _).mem_iff, mem_offsets_lastOfEach,
    offsets_filterMap_anchor?, List.mem_map]
  refine exists_congr fun line => and_congr_right fun hline => ?_
  have hle := base_le_address hbase (List.mem_of_mem_filter hline)
  have hle' := UInt64.le_iff_toNat_le.mp hle
  rw [← UInt64.toNat_inj, UInt64.toNat_sub_of_le _ _ hle]
  omega

/-- The anchors have distinct offsets, exactly if no annotated address comes back. -/
theorem nodup_offsets_anchors_iff :
    (l.anchors.map Anchor.offset).Nodup ↔ ¬ l.AddressReturns := by
  rw [anchors_eq hbase, ((List.mergeSort_perm _ _).map _).nodup_iff, nodup_offsets_lastOfEach_iff,
    offsets_filterMap_anchor?]
  constructor
  · rintro h ⟨a, b, c, hsub, hreturn, hother⟩
    have hmapped := hsub.map fun line => line.address - base
    simp only [List.map_cons, List.map_nil, ← hreturn] at hmapped
    exact hother ((UInt64.sub_left_inj base).mp (h _ _ hmapped))
  · intro h x y hxy
    obtain ⟨lines, hsub, hlines⟩ := List.sublist_map_iff.mp hxy
    obtain ⟨a, _, rfl, rfl, hrest⟩ := List.map_eq_cons_iff.mp hlines.symm
    obtain ⟨b, _, rfl, rfl, hrest'⟩ := List.map_eq_cons_iff.mp hrest
    obtain ⟨c, _, rfl, hc, hnil⟩ := List.map_eq_cons_iff.mp hrest'
    cases List.map_eq_nil_iff.mp hnil
    by_contra hother
    have hreturn : a.address = c.address := ((UInt64.sub_left_inj base).mp hc).symm
    exact h ⟨a, b, c, hsub, hreturn, fun hab => hother ((UInt64.sub_left_inj base).mpr hab)⟩

/-- The anchors are in the order of their offsets. -/
theorem ordered_anchors : l.anchors.Pairwise fun a b => a.offset ≤ b.offset := by
  rw [anchors_eq hbase]
  exact Correlation.pairwise_mergeSort_key Anchor.offset _

/-- The offsets of the anchors increase strictly, exactly if no annotated address comes back. -/
theorem increasing_anchors_iff :
    (l.anchors.Pairwise fun a b => a.offset < b.offset) ↔ ¬ l.AddressReturns := by
  rw [← nodup_offsets_anchors_iff hbase, List.nodup_iff_pairwise_ne, List.pairwise_map]
  constructor
  · exact fun h => h.imp UInt64.ne_of_lt
  · intro h
    exact ((ordered_anchors hbase).and h).imp fun ⟨hle, hne⟩ => UInt64.lt_of_le_of_ne hle hne

end

end Listing

/-- Where the anchors of a listing lie. They are in the order of their offsets, and there is one at
an offset exactly if an annotated line stands at that offset from the base. There is only one at
each offset, so that the offsets increase strictly, exactly if the address of an annotated line does
not come back behind an annotated line with another address. -/
theorem anchors_lie_at_annotated_lines (l : Listing) :
    (l.anchors.Pairwise fun a b => a.offset ≤ b.offset) ∧
      (∀ offset : UInt64, (∃ a ∈ l.anchors, a.offset = offset) ↔
        ∃ base ∈ l.base?, ∃ line ∈ l.annotated, base.toNat + offset.toNat = line.address.toNat) ∧
      ((l.anchors.Pairwise fun a b => a.offset < b.offset) ↔ ¬ l.AddressReturns) := by
  cases hbase : l.base? with
  | none =>
    have hanchors : l.anchors = [] := by
      unfold Listing.anchors
      rw [hbase]
    rw [hanchors]
    refine ⟨.nil, by simp, iff_of_true .nil ?_⟩
    rintro ⟨a, b, c, hsub, _⟩
    rw [Listing.annotated, Listing.lines_eq_nil hbase] at hsub
    cases hsub
  | some base =>
    refine ⟨Listing.ordered_anchors hbase, fun offset => ?_, Listing.increasing_anchors_iff hbase⟩
    rw [← List.mem_map, Listing.mem_offsets_anchors_iff hbase]
    simp

/-- A listing that prints an annotated address again behind another one. -/
def printedAgain : Listing :=
  let printedAt (address : UInt64) (comment : String) : Listing.Line :=
    ⟨address, "nop", "", [], [comment]⟩
  { Listing.blank with
    blocks := [⟨"[Entry Point]",
      [printedAt 0x10 "; - A::a@0", printedAt 0x14 "; - A::a@4", printedAt 0x10 "; - A::a@0"]⟩] }

/-- The address has two anchors. -/
theorem anchored_twice_where_printed_again :
    printedAgain.AddressReturns ∧
      ¬ printedAgain.anchors.Pairwise fun a b => a.offset < b.offset := by
  have hreturns : printedAgain.AddressReturns :=
    ⟨_, _, _, List.Sublist.refl printedAgain.annotated, by decide, by decide⟩
  have hbase : printedAgain.base? = some 0x10 := by decide
  exact ⟨hreturns, fun hstrict => (Listing.increasing_anchors_iff hbase).mp hstrict hreturns⟩

end CompileLog

import CompileLog.Proofs.Correlation.Stretches
import Mathlib.Data.List.Chain

/-!
# Entries and the nearest anchor

The entries of a correlation hold each instruction once, in offset order, under the mapping
that the nearest anchor at or before it gives. Neighbours share an entry exactly if one offset
governs both and every byte between them is covered. No order of the instructions or of the
anchors is assumed, and instructions may overlap.
-/

namespace CompileLog.Correlation

/-- The instructions of some entries in order, each with the number of its entry. -/
def placedFrom (first : Nat) (entries : List Entry) : List (NativeInstruction × Nat) :=
  (entries.zipIdx first).flatMap fun (e, n) => e.instructions.map fun i => (i, n)

/-- The instructions of a correlation in order, each with the position of its entry. -/
def placed (c : Correlation) : List (NativeInstruction × Nat) := placedFrom 0 c.entries

/-- Some byte from the start of one instruction up to another lies in no instruction at all. -/
def GapBetween (instructions : List NativeInstruction) (i j : NativeInstruction) : Prop :=
  ∃ byte, i.offset.toNat ≤ byte ∧ byte < j.offset.toNat ∧
    ∀ k ∈ instructions, ¬ (k.offset.toNat ≤ byte ∧ byte < k.stop)

/-- Two instructions stand in one entry exactly if one offset, or none, governs both and no
gap lies between them. -/
def SharesAsGoverned (instructions : List NativeInstruction) (anchors : List Anchor)
    (p q : NativeInstruction × Nat) : Prop :=
  p.2 = q.2 ↔ governing? anchors p.1.offset = governing? anchors q.1.offset ∧
    ¬ GapBetween instructions p.1 q.1

/-- The entry of one instruction. -/
def alone (anchors : List Anchor) (i : NativeInstruction) : Entry :=
  ⟨i.offset.toNat, i.stop, nearestMapping anchors i.offset, [i], none⟩

/-- Puts an instruction into the first of some entries. -/
def joinFirst (anchors : List Anchor) (i : NativeInstruction) : List Entry → List Entry
  | [] => [alone anchors i]
  | e :: entries =>
    { alone anchors i with stop := max i.stop e.stop, instructions := i :: e.instructions } ::
      entries

/-- The entries from one instruction on, with the bytes covered up to its end: the next
instruction is behind a gap, or under the same offset, or under another. -/
def entriesFrom (anchors : List Anchor) :
    Nat → NativeInstruction → List NativeInstruction → List Entry
  | _, i, [] => [alone anchors i]
  | covered, i, j :: rest =>
    let later := entriesFrom anchors (max covered j.stop) j rest
    if covered < j.offset.toNat then
      alone anchors i :: ⟨covered, j.offset.toNat, .unmapped, [], none⟩ :: later
    else if governing? anchors i.offset = governing? anchors j.offset then
      joinFirst anchors i later
    else alone anchors i :: later

/-- There is an entry, and the first begins with the instruction. -/
theorem entriesFrom_eq_cons (anchors : List Anchor) (covered : Nat) (i : NativeInstruction)
    (rest : List NativeInstruction) :
    ∃ e entries, entriesFrom anchors covered i rest = e :: entries ∧
      e.start = i.offset.toNat ∧ e.mapping = nearestMapping anchors i.offset ∧
      i ∈ e.instructions := by
  cases rest with
  | nil => exact ⟨_, _, rfl, rfl, rfl, List.mem_singleton_self i⟩
  | cons j rest =>
    unfold entriesFrom
    split_ifs with hgap hgoverned
    · exact ⟨_, _, rfl, rfl, rfl, List.mem_singleton_self i⟩
    · cases entriesFrom anchors (max covered j.stop) j rest with
      | nil => exact ⟨_, _, rfl, rfl, rfl, List.mem_singleton_self i⟩
      | cons e entries => exact ⟨_, _, rfl, rfl, rfl, List.mem_cons_self⟩
    · exact ⟨_, _, rfl, rfl, rfl, List.mem_singleton_self i⟩

/-- A gap ends an entry. -/
theorem entriesOf_code_gap (i : NativeInstruction) (governed : Option UInt64) (mapping : Mapping)
    (start stop : Nat) (rest : List Stretch) :
    entriesOf (.code i governed mapping :: .gap start stop :: rest) =
      ⟨i.offset.toNat, i.stop, mapping, [i], none⟩ :: ⟨start, stop, .unmapped, [], none⟩ ::
        entriesOf rest := by
  rw [entriesOf]
  · simp only [entriesOf]
  · intro _ _ _ _ _ _ heq
    cases heq

/-- An instruction joins the entry behind it if one offset governs both. -/
theorem entriesOf_code_code {i j : NativeInstruction} {governed governed' : Option UInt64}
    {mapping mapping' : Mapping} {rest : List Stretch} {e : Entry} {entries : List Entry}
    (h : entriesOf (.code j governed' mapping' :: rest) = e :: entries) :
    entriesOf (.code i governed mapping :: .code j governed' mapping' :: rest) =
      if governed = governed' then
        ⟨i.offset.toNat, max i.stop e.stop, mapping, i :: e.instructions, none⟩ :: entries
      else ⟨i.offset.toNat, i.stop, mapping, [i], none⟩ :: e :: entries := by
  rw [entriesOf.eq_def]
  simp only [h]

/-- Joining the stretches from an instruction on gives these entries. -/
theorem entriesOf_code (anchors : List Anchor) (covered : Nat) (i : NativeInstruction)
    (rest : List NativeInstruction) :
    entriesOf (.code i (governing? anchors i.offset) (nearestMapping anchors i.offset) ::
      stretchesOf anchors covered rest) = entriesFrom anchors covered i rest := by
  induction rest generalizing covered i with
  | nil => rfl
  | cons j rest ih =>
    have hlater := ih (max covered j.stop) j
    obtain ⟨e, entries, hentries, _⟩ := entriesFrom_eq_cons anchors (max covered j.stop) j rest
    rw [stretchesOf, entriesFrom, gapBefore]
    by_cases hgap : covered < j.offset.toNat
    · rw [if_pos hgap, if_pos hgap, List.singleton_append, entriesOf_code_gap, hlater]
      rfl
    · rw [if_neg hgap, if_neg hgap, List.nil_append, entriesOf_code_code (hlater.trans hentries),
        hentries]
      rfl

/-- A gap takes a number and holds nothing. -/
theorem placedFrom_gap (first start stop : Nat) (entries : List Entry) :
    placedFrom first (⟨start, stop, .unmapped, [], none⟩ :: entries) =
      placedFrom (first + 1) entries := rfl

/-- An instruction of its own takes the first number. -/
theorem placedFrom_alone (anchors : List Anchor) (first : Nat) (i : NativeInstruction)
    (entries : List Entry) :
    placedFrom first (alone anchors i :: entries) = (i, first) :: placedFrom (first + 1) entries :=
  rfl

/-- An instruction that joins the first entry shares its number. -/
theorem placedFrom_joinFirst (anchors : List Anchor) (first : Nat) (i : NativeInstruction)
    (e : Entry) (entries : List Entry) :
    placedFrom first (joinFirst anchors i (e :: entries)) =
      (i, first) :: placedFrom first (e :: entries) := rfl

/-- The instructions come out as they went in, the first of them in the first entry. -/
theorem map_fst_placedFrom_entriesFrom (anchors : List Anchor) (first covered : Nat)
    (i : NativeInstruction) (rest : List NativeInstruction) :
    (placedFrom first (entriesFrom anchors covered i rest)).map Prod.fst = i :: rest := by
  induction rest generalizing first covered i with
  | nil => rfl
  | cons j rest ih =>
    obtain ⟨e, entries, hentries, _⟩ := entriesFrom_eq_cons anchors (max covered j.stop) j rest
    unfold entriesFrom
    split_ifs with hgap hgoverned
    · rw [placedFrom_alone, placedFrom_gap, List.map_cons, ih]
    · have hlater := ih first (max covered j.stop) j
      rw [hentries] at hlater ⊢
      rw [placedFrom_joinFirst, List.map_cons, hlater]
    · rw [placedFrom_alone, List.map_cons, ih]

/-- An instruction lies in its entry if the entry spans it and maps as the nearest anchor does. -/
structure LiesIn (anchors : List Anchor) (i : NativeInstruction) (e : Entry) : Prop where
  /-- The entry lists it. -/
  mem : i ∈ e.instructions
  /-- It does not start before the entry. -/
  start_le : e.start ≤ i.offset.toNat
  /-- It does not end behind the entry. -/
  stop_le : i.stop ≤ e.stop
  /-- The entry comes from where the instruction comes from. -/
  mapping_eq : e.mapping = nearestMapping anchors i.offset

/-- An instruction lies in an entry of its own. -/
theorem liesIn_alone (anchors : List Anchor) (i : NativeInstruction) :
    ∀ k ∈ (alone anchors i).instructions, LiesIn anchors k (alone anchors i) := by
  intro k hk
  obtain rfl := List.mem_singleton.mp hk
  exact ⟨hk, le_rfl, le_rfl, rfl⟩

/-- Code under one governing offset comes from one place. -/
theorem nearestMapping_congr {anchors : List Anchor} {offset offset' : UInt64}
    (h : governing? anchors offset = governing? anchors offset') :
    nearestMapping anchors offset = nearestMapping anchors offset' := by
  rw [nearestMapping, nearestMapping, h]

/-- In offset order every instruction of an entry lies in it. -/
theorem liesIn_of_mem_entriesFrom {anchors : List Anchor} {covered : Nat} {i : NativeInstruction}
    {rest : List NativeInstruction}
    (hsorted : (i :: rest).Pairwise fun i j => i.offset ≤ j.offset) :
    ∀ e ∈ entriesFrom anchors covered i rest, ∀ k ∈ e.instructions, LiesIn anchors k e := by
  induction rest generalizing covered i with
  | nil =>
    intro e he
    obtain rfl := List.mem_singleton.mp he
    exact liesIn_alone anchors i
  | cons j rest ih =>
    obtain ⟨hfirst, hrest⟩ := List.pairwise_cons.mp hsorted
    have hlater : ∀ e ∈ entriesFrom anchors (max covered j.stop) j rest,
        ∀ k ∈ e.instructions, LiesIn anchors k e := ih hrest
    obtain ⟨first, entries, hentries, hstart, hmapping, hmem⟩ :=
      entriesFrom_eq_cons anchors (max covered j.stop) j rest
    unfold entriesFrom
    split_ifs with hgap hgoverned
    · intro e he
      rcases List.mem_cons.mp he with rfl | he
      · exact liesIn_alone anchors i
      · rcases List.mem_cons.mp he with rfl | he
        · simp
        · exact hlater e he
    · -- The first entry starts earlier now, and still spans what it listed before.
      rw [hentries] at hlater ⊢
      intro e he
      rcases List.mem_cons.mp he with rfl | he
      · intro k hk
        rcases List.mem_cons.mp hk with rfl | hk'
        · exact ⟨hk, le_rfl, le_max_left _ _, rfl⟩
        · have hin := hlater first (by simp) k hk'
          have hle : i.offset.toNat ≤ first.start := by
            rw [hstart, ← UInt64.le_iff_toNat_le]
            exact hfirst j (by simp)
          refine ⟨hk, hle.trans hin.start_le, hin.stop_le.trans (le_max_right _ _), ?_⟩
          rw [← hin.mapping_eq, hmapping]
          exact nearestMapping_congr hgoverned
      · exact hlater e (List.mem_cons_of_mem _ he)
    · intro e he
      rcases List.mem_cons.mp he with rfl | he
      · exact liesIn_alone anchors i
      · exact hlater e he

/-- The instructions seen cover bytes up to an offset and none behind it. -/
structure Covers (seen : List NativeInstruction) (covered : Nat) : Prop where
  /-- No instruction goes further. -/
  stop_le : ∀ k ∈ seen, k.stop ≤ covered
  /-- Some instruction goes as far. -/
  attained : ∃ k ∈ seen, k.stop = covered

/-- One instruction more covers up to the further of both ends. -/
theorem Covers.cons {seen : List NativeInstruction} {covered : Nat} (h : Covers seen covered)
    (j : NativeInstruction) : Covers (j :: seen) (max covered j.stop) := by
  refine ⟨?_, ?_⟩
  · intro k hk
    rcases List.mem_cons.mp hk with rfl | hk
    · exact le_max_right _ _
    · exact (h.stop_le k hk).trans (le_max_left _ _)
  · obtain ⟨k, hk, hstop⟩ := h.attained
    rcases le_total covered j.stop with hle | hle
    · exact ⟨j, by simp, by rw [max_eq_right hle]⟩
    · exact ⟨k, List.mem_cons_of_mem _ hk, by rw [max_eq_left hle, hstop]⟩

/-- Between an instruction and the next in offset order a gap lies exactly if the bytes covered
up to there end before the next. -/
theorem lt_offset_iff_gapBetween {instructions seen rest : List NativeInstruction}
    {i j : NativeInstruction} {covered : Nat} (hcovers : Covers (i :: seen) covered)
    (hall : ∀ k, k ∈ instructions ↔ k ∈ i :: seen ∨ k ∈ j :: rest)
    (hseen : ∀ k ∈ i :: seen, k.offset ≤ i.offset)
    (hrest : ∀ k ∈ j :: rest, j.offset ≤ k.offset) :
    covered < j.offset.toNat ↔ GapBetween instructions i j := by
  have hend : i.offset.toNat ≤ i.stop := Nat.le_add_right _ _
  constructor
  · intro hlt
    refine ⟨covered, hend.trans (hcovers.stop_le i (by simp)), hlt, ?_⟩
    intro k hk hin
    rcases (hall k).mp hk with hk | hk
    · have hstop := hcovers.stop_le k hk
      omega
    · have hle := UInt64.le_iff_toNat_le.mp (hrest k hk)
      omega
  · rintro ⟨byte, hfrom, hto, huncovered⟩
    by_contra hge
    obtain ⟨k, hk, hstop⟩ := hcovers.attained
    have hle := UInt64.le_iff_toNat_le.mp (hseen k hk)
    exact huncovered k ((hall k).mpr (.inl hk)) ⟨by omega, by omega⟩

/-- The first instruction takes the first number. -/
theorem placedFrom_entriesFrom_eq_cons (anchors : List Anchor) (first covered : Nat)
    (i : NativeInstruction) (rest : List NativeInstruction) :
    ∃ later, placedFrom first (entriesFrom anchors covered i rest) = (i, first) :: later := by
  cases rest with
  | nil => exact ⟨_, rfl⟩
  | cons j rest =>
    obtain ⟨e, entries, hentries, _⟩ := entriesFrom_eq_cons anchors (max covered j.stop) j rest
    unfold entriesFrom
    split_ifs with hgap hgoverned
    · exact ⟨_, rfl⟩
    · rw [hentries]
      exact ⟨_, rfl⟩
    · exact ⟨_, rfl⟩

/-- A number in front of the first instruction only has to go with the number of that one. -/
theorem isChain_cons_placedFrom {anchors : List Anchor} {first covered : Nat}
    {j : NativeInstruction} {rest : List NativeInstruction} {p : NativeInstruction × Nat}
    {R : NativeInstruction × Nat → NativeInstruction × Nat → Prop} (h : R p (j, first))
    (hchain : (placedFrom first (entriesFrom anchors covered j rest)).IsChain R) :
    (p :: placedFrom first (entriesFrom anchors covered j rest)).IsChain R := by
  obtain ⟨later, heq⟩ := placedFrom_entriesFrom_eq_cons anchors first covered j rest
  rw [heq] at hchain ⊢
  exact List.isChain_cons_cons.mpr ⟨h, hchain⟩

/-- In offset order neighbours share a number exactly as they are governed. -/
theorem isChain_placedFrom_entriesFrom {anchors : List Anchor}
    {instructions seen rest : List NativeInstruction} {i : NativeInstruction}
    (first : Nat) {covered : Nat} (hcovers : Covers (i :: seen) covered)
    (hsorted : (i :: rest).Pairwise fun i j => i.offset ≤ j.offset)
    (hall : ∀ k, k ∈ instructions ↔ k ∈ i :: seen ∨ k ∈ rest)
    (hseen : ∀ k ∈ i :: seen, k.offset ≤ i.offset) :
    (placedFrom first (entriesFrom anchors covered i rest)).IsChain
      (SharesAsGoverned instructions anchors) := by
  induction rest generalizing seen first covered i with
  | nil => exact List.isChain_singleton _
  | cons j rest ih =>
    obtain ⟨hfirst, hrest⟩ := List.pairwise_cons.mp hsorted
    have hnext : ∀ k ∈ j :: rest, j.offset ≤ k.offset := by
      intro k hk
      rcases List.mem_cons.mp hk with rfl | hk
      · exact UInt64.le_refl _
      · exact (List.pairwise_cons.mp hrest).1 k hk
    have hgapIff := lt_offset_iff_gapBetween hcovers hall hseen hnext
    have hseen' : ∀ k ∈ j :: i :: seen, k.offset ≤ j.offset := by
      intro k hk
      rcases List.mem_cons.mp hk with rfl | hk
      · exact UInt64.le_refl _
      · exact UInt64.le_trans (hseen k hk) (hfirst j (by simp))
    have hall' : ∀ k, k ∈ instructions ↔ k ∈ j :: i :: seen ∨ k ∈ rest := by
      intro k
      rw [hall k]
      simp only [List.mem_cons]
      tauto
    have hlater (n : Nat) := ih n (hcovers.cons j) hrest hall' hseen'
    obtain ⟨e, entries, hentries, _⟩ := entriesFrom_eq_cons anchors (max covered j.stop) j rest
    unfold entriesFrom
    split_ifs with hgap hgoverned
    · -- The gap takes the number in between, so the two numbers differ.
      rw [placedFrom_alone, placedFrom_gap]
      refine isChain_cons_placedFrom ?_ (hlater (first + 1 + 1))
      have hbetween := hgapIff.mp hgap
      have hne : first ≠ first + 1 + 1 := by omega
      simp [SharesAsGoverned, hbetween, hne]
    · rw [hentries, placedFrom_joinFirst, ← hentries]
      refine isChain_cons_placedFrom ?_ (hlater first)
      have hbetween : ¬ GapBetween instructions i j := fun h => hgap (hgapIff.mpr h)
      simp [SharesAsGoverned, hbetween, hgoverned]
    · rw [placedFrom_alone]
      refine isChain_cons_placedFrom ?_ (hlater (first + 1))
      simp [SharesAsGoverned, hgoverned]

/-- The number of an instruction is the position of its entry. -/
theorem mem_placed {c : Correlation} {p : NativeInstruction × Nat} (h : p ∈ placed c) :
    ∃ e, c.entries[p.2]? = some e ∧ p.1 ∈ e.instructions := by
  obtain ⟨⟨e, n⟩, he, hp⟩ := List.mem_flatMap.mp h
  obtain ⟨i, hi, rfl⟩ := List.mem_map.mp hp
  exact ⟨e, List.mem_zipIdx_iff_getElem?.mp he, hi⟩

/-- Only a gap can stand before the entries from the first instruction on. -/
theorem entriesOf_stretchesOf_cons (anchors : List Anchor) (i : NativeInstruction)
    (rest : List NativeInstruction) :
    entriesOf (stretchesOf anchors 0 (i :: rest)) = entriesFrom anchors i.stop i rest ∨
      entriesOf (stretchesOf anchors 0 (i :: rest)) =
        ⟨0, i.offset.toNat, .unmapped, [], none⟩ :: entriesFrom anchors i.stop i rest := by
  rw [stretchesOf, gapBefore, Nat.zero_max]
  split_ifs with hgap
  · right
    rw [List.singleton_append, entriesOf, entriesOf_code]
  · left
    rw [List.nil_append, entriesOf_code]

/-- An entry that lists an instruction is not the gap that may stand first. -/
theorem mem_entriesFrom_of_mem_entriesOf {anchors : List Anchor} {i k : NativeInstruction}
    {rest : List NativeInstruction} {e : Entry}
    (he : e ∈ entriesOf (stretchesOf anchors 0 (i :: rest))) (hk : k ∈ e.instructions) :
    e ∈ entriesFrom anchors i.stop i rest := by
  rcases entriesOf_stretchesOf_cons anchors i rest with h | h
  · rwa [h] at he
  · rw [h] at he
    rcases List.mem_cons.mp he with rfl | he
    · simp at hk
    · exact he

/-- A correlation places every instruction once, in offset order, in an entry that spans it and
has the mapping of the nearest anchor at or before it. Neighbours share an entry exactly if
they are governed by one offset, or both by none, and no gap lies between them. The ends of
instructions are not bounded here, so this holds also where they do not fit 64 bits. -/
theorem correlate_agrees_with_nearest (instructions : List NativeInstruction)
    (anchors : List Anchor) :
    (placed (correlate instructions anchors)).map Prod.fst =
        instructions.mergeSort (fun i j => i.offset ≤ j.offset) ∧
      (∀ p ∈ placed (correlate instructions anchors), ∃ e,
        (correlate instructions anchors).entries[p.2]? = some e ∧ LiesIn anchors p.1 e) ∧
      (placed (correlate instructions anchors)).IsChain
        (SharesAsGoverned instructions anchors) := by
  have hentries := entries_correlate instructions anchors
  have hsorted := pairwise_mergeSort_key NativeInstruction.offset instructions
  have hmem (k : NativeInstruction) :
      k ∈ instructions ↔ k ∈ instructions.mergeSort fun i j => i.offset ≤ j.offset :=
    List.mem_mergeSort.symm
  -- From here on only the order of the instructions counts, not how they were sorted.
  revert hentries hsorted hmem
  generalize (instructions.mergeSort fun i j => i.offset ≤ j.offset) = sorted
  intro hentries hsorted hmem
  cases sorted with
  | nil =>
    have hnone : placed (correlate instructions anchors) = [] := by
      rw [placed, hentries]
      rfl
    simp [hnone]
  | cons i rest =>
    have hcovers : Covers [i] i.stop := ⟨by simp, i, by simp, rfl⟩
    have hall : ∀ k, k ∈ instructions ↔ k ∈ [i] ∨ k ∈ rest := by
      intro k
      rw [hmem k, List.mem_cons, List.mem_singleton]
    have hseen : ∀ k ∈ [i], k.offset ≤ i.offset := by
      intro k hk
      rw [List.mem_singleton.mp hk]
      exact UInt64.le_refl _
    obtain ⟨first, hplaced⟩ : ∃ first, placed (correlate instructions anchors) =
        placedFrom first (entriesFrom anchors i.stop i rest) := by
      rcases entriesOf_stretchesOf_cons anchors i rest with h | h
      · exact ⟨0, by rw [placed, hentries, h]⟩
      · exact ⟨1, by rw [placed, hentries, h, placedFrom_gap]⟩
    refine ⟨?_, ?_, ?_⟩
    · rw [hplaced, map_fst_placedFrom_entriesFrom]
    · intro p hp
      obtain ⟨e, he, hp⟩ := mem_placed hp
      refine ⟨e, he, ?_⟩
      have hin := List.mem_of_getElem? he
      rw [hentries] at hin
      have hfrom := mem_entriesFrom_of_mem_entriesOf hin hp
      exact liesIn_of_mem_entriesFrom hsorted e hfrom p.1 hp
    · rw [hplaced]
      exact isChain_placedFrom_entriesFrom first hcovers hsorted hall hseen

end CompileLog.Correlation

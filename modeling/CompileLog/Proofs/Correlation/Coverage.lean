import CompileLog.Proofs.Correlation.Nearest

/-!
# What the entries cover

The entries of a correlation hold the instructions as they came, in offset order, and leave no byte
out up to the end of the code. Bytes that no instruction covers lie in gap entries, which are as wide
as they can be. Where no instruction starts inside another, each entry ends where the next one
starts.
-/

namespace CompileLog.Correlation

/-- The greatest end of an instruction, zero where there is none. -/
def codeEnd (instructions : List NativeInstruction) : Nat :=
  (instructions.map NativeInstruction.stop).max?.getD 0

/-- An instruction covers a byte. -/
def Covered (instructions : List NativeInstruction) (byte : Nat) : Prop :=
  ∃ k ∈ instructions, k.offset.toNat ≤ byte ∧ byte < k.stop

/-- A range in front of the end of the code, of which no instruction covers a byte. -/
structure Uncovered (instructions : List NativeInstruction) (start stop : Nat) : Prop where
  nonempty : start < stop
  stop_le : stop ≤ codeEnd instructions
  bare : ∀ byte, start ≤ byte → byte < stop → ¬ Covered instructions byte

/-- An uncovered range that lies in no other. -/
structure Hole (instructions : List NativeInstruction) (start stop : Nat) : Prop
    extends Uncovered instructions start stop where
  widest : ∀ start' stop', Uncovered instructions start' stop' → start' ≤ start → stop ≤ stop' →
    start' = start ∧ stop' = stop

/-- Entries go from one offset to another, each from where the one before it ends. -/
def Tiles : Nat → Nat → List Entry → Prop
  | start, stop, [] => start = stop
  | start, stop, e :: entries => e.start = start ∧ e.start ≤ e.stop ∧ Tiles e.stop stop entries

/-! ### The end of the code -/

/-- The end of the bytes covered, once some instructions are walked over. -/
def coveredBy (covered : Nat) (instructions : List NativeInstruction) : Nat :=
  instructions.foldl (fun covered i => max covered i.stop) covered

/-- What was covered before stays covered. By induction on the instructions. -/
theorem le_coveredBy (covered : Nat) (instructions : List NativeInstruction) :
    covered ≤ coveredBy covered instructions := by
  induction instructions generalizing covered with
  | nil => exact le_rfl
  | cons i rest ih => exact (le_max_left _ _).trans (ih (max covered i.stop))

/-- No instruction ends behind what is covered. By induction on the instructions. -/
theorem stop_le_coveredBy {covered : Nat} {instructions : List NativeInstruction} :
    ∀ k ∈ instructions, k.stop ≤ coveredBy covered instructions := by
  induction instructions generalizing covered with
  | nil => simp
  | cons i rest ih =>
    intro k hk
    rcases List.mem_cons.mp hk with rfl | hk
    · exact (le_max_right _ _).trans (le_coveredBy (max covered k.stop) rest)
    · exact ih k hk

/-- What is covered ends where it ended before, or where an instruction ends. By induction on the
instructions. -/
theorem coveredBy_eq (covered : Nat) (instructions : List NativeInstruction) :
    coveredBy covered instructions = covered ∨
      ∃ k ∈ instructions, k.stop = coveredBy covered instructions := by
  induction instructions generalizing covered with
  | nil => exact .inl rfl
  | cons i rest ih =>
    rcases ih (max covered i.stop) with hsame | ⟨k, hk, hstop⟩
    · rcases Nat.le_total i.stop covered with hle | hle
      · exact .inl (hsame.trans (max_eq_left hle))
      · exact .inr ⟨i, List.mem_cons_self, (hsame.trans (max_eq_right hle)).symm⟩
    · exact .inr ⟨k, List.mem_cons_of_mem i hk, hstop⟩

/-- No instruction ends behind the end of the code. -/
theorem stop_le_codeEnd {instructions : List NativeInstruction} :
    ∀ k ∈ instructions, k.stop ≤ codeEnd instructions := by
  intro k hk
  unfold codeEnd
  cases hmax : (instructions.map NativeInstruction.stop).max? with
  | none =>
    rw [List.max?_eq_none_iff, List.map_eq_nil_iff] at hmax
    exact absurd hk (hmax ▸ List.not_mem_nil)
  | some stop => exact (List.max?_eq_some_iff.mp hmax).2 k.stop (List.mem_map_of_mem hk)

/-- The code ends where an instruction ends, or holds none. -/
theorem codeEnd_eq (instructions : List NativeInstruction) :
    codeEnd instructions = 0 ∨ ∃ k ∈ instructions, k.stop = codeEnd instructions := by
  unfold codeEnd
  cases hmax : (instructions.map NativeInstruction.stop).max? with
  | none => exact .inl rfl
  | some stop => exact .inr (List.mem_map.mp (List.max?_eq_some_iff.mp hmax).1)

/-- Walking over the instructions in any order covers the code up to its end. -/
theorem coveredBy_zero {instructions walked : List NativeInstruction}
    (hmem : ∀ k, k ∈ instructions ↔ k ∈ walked) : coveredBy 0 walked = codeEnd instructions := by
  apply le_antisymm
  · rcases coveredBy_eq 0 walked with hzero | ⟨k, hk, hstop⟩
    · exact hzero.trans_le (Nat.zero_le _)
    · exact hstop ▸ stop_le_codeEnd k ((hmem k).mpr hk)
  · rcases codeEnd_eq instructions with hzero | ⟨k, hk, hstop⟩
    · exact hzero.trans_le (Nat.zero_le _)
    · exact hstop ▸ stop_le_coveredBy k ((hmem k).mp hk)

/-! ### Instructions -/

/-- The entries from an instruction on list the instructions in their order. -/
theorem flatMap_instructions_entriesFrom (anchors : List Anchor) (covered : Nat)
    (i : NativeInstruction) (rest : List NativeInstruction) :
    (entriesFrom anchors covered i rest).flatMap Entry.instructions = i :: rest := by
  induction rest generalizing covered i with
  | nil => rfl
  | cons j rest ih =>
    obtain ⟨e, entries, hentries, _⟩ := entriesFrom_eq_cons anchors (max covered j.stop) j rest
    have hlater := ih (max covered j.stop) j
    unfold entriesFrom
    split_ifs with hgap hgoverned
    · exact congrArg (List.cons i) hlater
    · rw [hentries] at hlater ⊢
      exact congrArg (List.cons i) hlater
    · exact congrArg (List.cons i) hlater

/-! ### Gaps -/

/-- A gap entry. -/
def gapEntry (start stop : Nat) : Entry := ⟨start, stop, .unmapped, [], none⟩

/-- Entries begin with one that lists instructions where the stretches begin with one. -/
theorem entriesOf_code_eq_cons (i : NativeInstruction) (governed : Option UInt64)
    (mapping : Mapping) (rest : List Stretch) :
    ∃ e entries, entriesOf (.code i governed mapping :: rest) = e :: entries ∧
      e.instructions ≠ [] ∧
      ∀ bare : Entry, bare.instructions = [] → (bare ∈ entries ↔ bare ∈ entriesOf rest) := by
  induction rest generalizing i governed mapping with
  | nil => exact ⟨_, _, rfl, List.cons_ne_nil _ _, fun _ _ => Iff.rfl⟩
  | cons next rest ih =>
    cases next with
    | gap start stop =>
      rw [entriesOf_code_gap]
      exact ⟨_, _, rfl, List.cons_ne_nil _ _, fun _ _ => by simp only [entriesOf]⟩
    | code j governed' mapping' =>
      obtain ⟨e, entries, hentries, hlists, _⟩ := ih j governed' mapping'
      rw [entriesOf_code_code hentries, hentries]
      have hne : ∀ bare : Entry, bare.instructions = [] → bare ≠ e := by
        rintro bare hbare rfl
        exact hlists hbare
      split_ifs
      · refine ⟨_, _, rfl, List.cons_ne_nil _ _, fun bare hbare => ?_⟩
        simp [hne bare hbare]
      · exact ⟨_, _, rfl, List.cons_ne_nil _ _, fun _ _ => Iff.rfl⟩

/-- The entries without instructions are those of the gaps laid down. -/
theorem mem_entriesOf_iff_of_bare {bare : Entry} (hbare : bare.instructions = [])
    (stretches : List Stretch) : bare ∈ entriesOf stretches ↔
      ∃ start stop, Stretch.gap start stop ∈ stretches ∧ bare = gapEntry start stop := by
  induction stretches with
  | nil => simp [entriesOf]
  | cons first rest ih =>
    cases first with
    | gap start stop =>
      rw [entriesOf, List.mem_cons, ih]
      constructor
      · rintro (rfl | ⟨start', stop', hmem, heq⟩)
        · exact ⟨start, stop, List.mem_cons_self, rfl⟩
        · exact ⟨start', stop', List.mem_cons_of_mem _ hmem, heq⟩
      · rintro ⟨start', stop', hmem, heq⟩
        rcases List.mem_cons.mp hmem with hfirst | hrest
        · cases hfirst
          exact .inl heq
        · exact .inr ⟨start', stop', hrest, heq⟩
    | code i governed mapping =>
      obtain ⟨e, entries, hentries, hlists, hlater⟩ :=
        entriesOf_code_eq_cons i governed mapping rest
      have hne : bare ≠ e := by
        rintro rfl
        exact hlists hbare
      rw [hentries, List.mem_cons, hlater bare hbare, ih]
      simp [hne]

/-- A gap is laid down in front of an instruction that starts behind what is covered up to it. By
induction on the instructions. -/
theorem gap_mem_stretchesOf_iff {anchors : List Anchor} {covered start stop : Nat}
    {instructions : List NativeInstruction} :
    Stretch.gap start stop ∈ stretchesOf anchors covered instructions ↔
      ∃ before i behind, instructions = before ++ i :: behind ∧
        start = coveredBy covered before ∧ stop = i.offset.toNat ∧ start < stop := by
  induction instructions generalizing covered with
  | nil => simp [stretchesOf]
  | cons j rest ih =>
    rw [stretchesOf, List.mem_append, List.mem_cons, ih]
    constructor
    · rintro (hfirst | hcode | ⟨before, i, behind, rfl, hstart, hstop, hlt⟩)
      · unfold gapBefore at hfirst
        split_ifs at hfirst with hgap
        · cases List.mem_singleton.mp hfirst
          exact ⟨[], j, rest, rfl, rfl, rfl, hgap⟩
        · cases hfirst
      · cases hcode
      · exact ⟨j :: before, i, behind, rfl, hstart, hstop, hlt⟩
    · rintro ⟨before, i, behind, hsplit, hstart, hstop, hlt⟩
      cases before with
      | nil =>
        obtain ⟨rfl, rfl⟩ := List.cons.inj hsplit
        obtain rfl : start = covered := hstart
        subst hstop
        exact .inl (by rw [gapBefore, if_pos hlt]; exact List.mem_singleton_self _)
      | cons first before =>
        obtain ⟨rfl, rfl⟩ := List.cons.inj hsplit
        exact .inr (.inr ⟨before, i, behind, rfl, hstart, hstop, hlt⟩)

/-- A byte that no instruction covers lies in a gap if an instruction ends behind it. By induction on
the instructions. -/
theorem exists_gap_of_not_covered {covered byte : Nat} {instructions : List NativeInstruction}
    (hfrom : covered ≤ byte) (hto : byte < coveredBy covered instructions)
    (hbare : ¬ Covered instructions byte) :
    ∃ before i behind, instructions = before ++ i :: behind ∧
      coveredBy covered before ≤ byte ∧ byte < i.offset.toNat := by
  induction instructions generalizing covered with
  | nil => exact absurd hto (Nat.not_lt.mpr hfrom)
  | cons i rest ih =>
    by_cases hend : byte < i.stop
    · refine ⟨[], i, rest, rfl, hfrom, ?_⟩
      by_contra hbehind
      exact hbare ⟨i, List.mem_cons_self, Nat.not_lt.mp hbehind, hend⟩
    · have hrest : ¬ Covered rest byte := fun ⟨k, hk, hin⟩ =>
        hbare ⟨k, List.mem_cons_of_mem i hk, hin⟩
      have hbyte : max covered i.stop ≤ byte := by omega
      obtain ⟨before, j, behind, rfl, hbefore, hbehind⟩ := ih hbyte hto hrest
      exact ⟨i :: before, j, behind, rfl, hbefore, hbehind⟩

section Holes

variable {instructions before behind : List NativeInstruction} {i : NativeInstruction}
  (hmem : ∀ k, k ∈ instructions ↔ k ∈ before ++ i :: behind)
  (hsorted : (before ++ i :: behind).Pairwise fun i j => i.offset ≤ j.offset)
  (hlt : coveredBy 0 before < i.offset.toNat)
include hmem hsorted hlt

/-- The bytes between what is covered and the next instruction are covered by none. -/
theorem uncovered_of_gap : Uncovered instructions (coveredBy 0 before) i.offset.toNat := by
  refine ⟨hlt, ?_, ?_⟩
  · exact (Nat.le_add_right _ _).trans (stop_le_codeEnd i ((hmem i).mpr (by simp)))
  · rintro byte hfrom hto ⟨k, hk, hstart, hstop⟩
    obtain ⟨_, hbehind, _⟩ := List.pairwise_append.mp hsorted
    rcases List.mem_append.mp ((hmem k).mp hk) with hbefore | hnext
    · have hle : k.stop ≤ coveredBy 0 before := stop_le_coveredBy k hbefore
      omega
    · have hle : i.offset ≤ k.offset := by
        rcases List.mem_cons.mp hnext with rfl | hnext
        · exact UInt64.le_refl _
        · exact (List.pairwise_cons.mp hbehind).1 k hnext
      have hle' := UInt64.le_iff_toNat_le.mp hle
      omega

/-- Where every instruction covers a byte, that range cannot be widened: the byte in front of it is
the last of an instruction, and the one behind it the first of another. -/
theorem hole_of_gap (hpositive : ∀ k ∈ instructions, 0 < k.length) :
    Hole instructions (coveredBy 0 before) i.offset.toNat := by
  refine ⟨uncovered_of_gap hmem hsorted hlt, ?_⟩
  have hends : ∀ k ∈ instructions, k.offset.toNat < k.stop := fun k hk => by
    have hlength := UInt64.lt_iff_toNat_lt.mp (hpositive k hk)
    exact Nat.lt_add_of_pos_right hlength
  intro start' stop' h hstart hstop
  constructor
  · by_contra hne
    rcases coveredBy_eq 0 before with hzero | ⟨k, hk, hend⟩
    · omega
    · have hk' : k ∈ instructions := (hmem k).mpr (List.mem_append_left _ hk)
      have hcovers := hends k hk'
      exact h.bare (coveredBy 0 before - 1) (by omega) (by omega) ⟨k, hk', by omega, by omega⟩
  · by_contra hne
    have hi : i ∈ instructions := (hmem i).mpr (by simp)
    exact h.bare i.offset.toNat (by omega) (by omega) ⟨i, hi, le_rfl, hends i hi⟩

end Holes

/-- An uncovered range that cannot be widened is any other such range that it meets. -/
theorem Hole.eq_of_mem {instructions : List NativeInstruction} {start stop start' stop' byte : Nat}
    (h : Hole instructions start stop) (h' : Hole instructions start' stop')
    (hin : start ≤ byte ∧ byte < stop) (hin' : start' ≤ byte ∧ byte < stop') :
    start' = start ∧ stop' = stop := by
  have hunion : Uncovered instructions (min start start') (max stop stop') := by
    refine ⟨by omega, max_le h.stop_le h'.stop_le, fun b hfrom hto => ?_⟩
    by_cases hside : start ≤ b ∧ b < stop
    · exact h.bare b hside.1 hside.2
    · exact h'.bare b (by omega) (by omega)
  have hwide := h.widest _ _ hunion (by omega) (by omega)
  have hwide' := h'.widest _ _ hunion (by omega) (by omega)
  omega

/-! ### Tiles -/

/-- How many instructions start in front of the end of the bytes covered before them. -/
def overlapsFrom : Nat → List NativeInstruction → Nat
  | _, [] => 0
  | covered, i :: rest =>
    (if i.offset.toNat < covered then 1 else 0) + overlapsFrom (max covered i.stop) rest

/-- The walk counts these. By induction on the instructions. -/
theorem Walk.overlapping_foldl (anchored : Bool) (instructions : List NativeInstruction)
    (w : Walk) : (instructions.foldl (Walk.step anchored) w).overlapping =
      w.overlapping + overlapsFrom w.covered instructions := by
  induction instructions generalizing w with
  | nil => rfl
  | cons i rest ih =>
    rw [List.foldl_cons, ih, Walk.covered_step, overlapsFrom, ← Nat.add_assoc]
    rfl

/-- Where no instruction starts inside an earlier one, each entry from an instruction on ends where
the next starts. By induction on the instructions. -/
theorem tiles_entriesFrom {anchors : List Anchor} {i : NativeInstruction}
    {rest : List NativeInstruction} (h : overlapsFrom i.stop rest = 0) :
    Tiles i.offset.toNat (coveredBy i.stop rest) (entriesFrom anchors i.stop i rest) := by
  have hend : ∀ k : NativeInstruction, k.offset.toNat ≤ k.stop := fun k => Nat.le_add_right _ _
  induction rest generalizing i with
  | nil => exact ⟨rfl, hend i, rfl⟩
  | cons j rest ih =>
    rw [overlapsFrom, Nat.add_eq_zero_iff] at h
    have hapart : i.stop ≤ j.offset.toNat := by
      by_contra hlt
      rw [if_pos (Nat.not_le.mp hlt)] at h
      exact Nat.one_ne_zero h.1
    have hmax : max i.stop j.stop = j.stop := max_eq_right (hapart.trans (hend j))
    have hlater := ih (hmax ▸ h.2)
    obtain ⟨e, entries, hentries, _⟩ := entriesFrom_eq_cons anchors j.stop j rest
    rw [coveredBy, List.foldl_cons, hmax]
    unfold entriesFrom
    rw [hmax]
    split_ifs with hgap hgoverned
    · exact ⟨rfl, hend i, rfl, hapart, hlater⟩
    · rw [hentries] at hlater ⊢
      obtain ⟨hstart, hle, hrest⟩ := hlater
      have hfirst := hend i
      have hstop : max i.stop e.stop = e.stop := by omega
      exact ⟨rfl, by simp only [alone]; omega, by rwa [hstop]⟩
    · have hmeet : j.offset.toNat = i.stop := by omega
      rw [hmeet] at hlater
      exact ⟨rfl, hend i, hlater⟩

/-- The same from the start of the code on. -/
theorem tiles_entriesOf {anchors : List Anchor} {instructions : List NativeInstruction}
    (h : overlapsFrom 0 instructions = 0) :
    Tiles 0 (coveredBy 0 instructions) (entriesOf (stretchesOf anchors 0 instructions)) := by
  cases instructions with
  | nil => rfl
  | cons i rest =>
    rw [overlapsFrom, Nat.zero_max, Nat.add_eq_zero_iff] at h
    have hrest : Tiles i.offset.toNat (coveredBy i.stop rest) (entriesFrom anchors i.stop i rest) :=
      tiles_entriesFrom h.2
    rw [stretchesOf, gapBefore, coveredBy, List.foldl_cons, Nat.zero_max]
    split_ifs with hgap
    · rw [List.singleton_append, entriesOf, entriesOf_code]
      exact ⟨rfl, Nat.zero_le _, hrest⟩
    · have hzero : i.offset.toNat = 0 := by omega
      rw [List.nil_append, entriesOf_code]
      rwa [hzero] at hrest

/-! ### Whole correlations -/

/-- A correlation counts the instructions that start inside an earlier one. -/
theorem overlapping_correlate (instructions : List NativeInstruction) (anchors : List Anchor) :
    (correlate instructions anchors).anomalies.overlapping =
      overlapsFrom 0 (instructions.mergeSort fun i j => i.offset ≤ j.offset) := by
  have h := Walk.overlapping_foldl (!anchors.isEmpty)
    (instructions.mergeSort fun i j => i.offset ≤ j.offset) (.start (groupAnchors anchors))
  simp only [correlate]
  rw [h]
  exact Nat.zero_add _

/-- The entries of a correlation list the instructions in offset order. -/
theorem flatMap_instructions_correlate (instructions : List NativeInstruction)
    (anchors : List Anchor) :
    (correlate instructions anchors).entries.flatMap Entry.instructions =
      instructions.mergeSort fun i j => i.offset ≤ j.offset := by
  rw [entries_correlate]
  cases instructions.mergeSort fun i j => i.offset ≤ j.offset with
  | nil => rfl
  | cons i rest =>
    have hentries := flatMap_instructions_entriesFrom anchors i.stop i rest
    rcases entriesOf_stretchesOf_cons anchors i rest with h | h
    · rw [h, hentries]
    · rw [h, List.flatMap_cons, List.nil_append, hentries]

/-- The entries without instructions are the gaps that the walk over the instructions in offset order
lays down. -/
theorem mem_entries_correlate_iff_of_bare {bare : Entry} (hbare : bare.instructions = [])
    (instructions : List NativeInstruction) (anchors : List Anchor) :
    bare ∈ (correlate instructions anchors).entries ↔
      ∃ before i behind,
        instructions.mergeSort (fun i j => i.offset ≤ j.offset) = before ++ i :: behind ∧
        coveredBy 0 before < i.offset.toNat ∧
        bare = gapEntry (coveredBy 0 before) i.offset.toNat := by
  rw [entries_correlate, mem_entriesOf_iff_of_bare hbare]
  constructor
  · rintro ⟨start, stop, hgap, heq⟩
    obtain ⟨before, i, behind, hsplit, rfl, rfl, hlt⟩ := gap_mem_stretchesOf_iff.mp hgap
    exact ⟨before, i, behind, hsplit, hlt, heq⟩
  · rintro ⟨before, i, behind, hsplit, hlt, heq⟩
    exact ⟨_, _, gap_mem_stretchesOf_iff.mpr ⟨before, i, behind, hsplit, rfl, rfl, hlt⟩, heq⟩

/-- An uncovered byte lies in a gap entry. -/
theorem exists_bare_of_not_covered {instructions : List NativeInstruction} (anchors : List Anchor)
    {byte : Nat} (hbyte : byte < codeEnd instructions) (hbare : ¬ Covered instructions byte) :
    ∃ e ∈ (correlate instructions anchors).entries, e.instructions = [] ∧
      e.start ≤ byte ∧ byte < e.stop := by
  have hmem (k : NativeInstruction) :
      k ∈ instructions ↔ k ∈ instructions.mergeSort fun i j => i.offset ≤ j.offset :=
    List.mem_mergeSort.symm
  have hsorted : ¬ Covered (instructions.mergeSort fun i j => i.offset ≤ j.offset) byte :=
    fun ⟨k, hk, hin⟩ => hbare ⟨k, (hmem k).mpr hk, hin⟩
  rw [← coveredBy_zero hmem] at hbyte
  obtain ⟨before, i, behind, hsplit, hfrom, hto⟩ :=
    exists_gap_of_not_covered (Nat.zero_le byte) hbyte hsorted
  refine ⟨gapEntry (coveredBy 0 before) i.offset.toNat, ?_, rfl, hfrom, hto⟩
  exact (mem_entries_correlate_iff_of_bare rfl instructions anchors).mpr
    ⟨before, i, behind, hsplit, by omega, rfl⟩

/-- A covered byte lies in the entry of its instruction. -/
theorem exists_entry_of_covered {instructions : List NativeInstruction} (anchors : List Anchor)
    {byte : Nat} (h : Covered instructions byte) :
    ∃ e ∈ (correlate instructions anchors).entries, e.start ≤ byte ∧ byte < e.stop := by
  obtain ⟨k, hk, hfrom, hto⟩ := h
  have hlisted : k ∈ (correlate instructions anchors).entries.flatMap Entry.instructions := by
    rw [flatMap_instructions_correlate]
    exact List.mem_mergeSort.mpr hk
  obtain ⟨e, he, hke⟩ := List.mem_flatMap.mp hlisted
  have hsorted := pairwise_mergeSort_key NativeInstruction.offset instructions
  have hentry := he
  rw [entries_correlate] at hentry
  revert hsorted hentry
  cases instructions.mergeSort fun i j => i.offset ≤ j.offset with
  | nil => exact fun _ hnone => absurd hnone List.not_mem_nil
  | cons i rest =>
    intro hsorted hentry
    have hin := liesIn_of_mem_entriesFrom hsorted e
      (mem_entriesFrom_of_mem_entriesOf hentry hke) k hke
    exact ⟨e, he, hin.start_le.trans hfrom, hto.trans_le hin.stop_le⟩

/-- A correlation loses nothing and leaves nothing out. Its entries list exactly the instructions, in
offset order and those of one offset as they came. Every byte up to the end of the code lies in an
entry, and an entry without instructions has no mapping. Where no instruction starts inside an
earlier one, the entries go from zero to the end of the code, each from where the one before it ends.
Where every instruction has a byte, the entries without instructions are exactly the ranges that no
instruction covers and that cannot be widened; this holds also where instructions overlap. The ends
of instructions are not bounded here. -/
theorem correlation_covers_code (instructions : List NativeInstruction) (anchors : List Anchor) :
    let c := correlate instructions anchors
    c.entries.flatMap Entry.instructions =
        instructions.mergeSort (fun i j => i.offset ≤ j.offset) ∧
      (∀ byte < codeEnd instructions, ∃ e ∈ c.entries, e.contains byte = true) ∧
      (∀ e ∈ c.entries, e.instructions = [] → e.mapping = .unmapped) ∧
      (c.anomalies.overlapping = 0 → Tiles 0 (codeEnd instructions) c.entries) ∧
      ((∀ i ∈ instructions, 0 < i.length) → ∀ start stop,
        (∃ e ∈ c.entries, e.instructions = [] ∧ e.start = start ∧ e.stop = stop) ↔
          Hole instructions start stop) := by
  intro c
  have hmem (k : NativeInstruction) :
      k ∈ instructions ↔ k ∈ instructions.mergeSort fun i j => i.offset ≤ j.offset :=
    List.mem_mergeSort.symm
  have hsorted := pairwise_mergeSort_key NativeInstruction.offset instructions
  refine ⟨flatMap_instructions_correlate instructions anchors, fun byte hbyte => ?_,
    fun e he hbare => ?_, fun hnone => ?_, fun hpositive => ?_⟩
  · obtain ⟨e, he, hfrom, hto⟩ : ∃ e ∈ c.entries, e.start ≤ byte ∧ byte < e.stop := by
      by_cases hcovered : Covered instructions byte
      · exact exists_entry_of_covered anchors hcovered
      · obtain ⟨e, he, _, hin⟩ := exists_bare_of_not_covered anchors hbyte hcovered
        exact ⟨e, he, hin⟩
    exact ⟨e, he, by simp [Entry.contains, hfrom, hto]⟩
  · obtain ⟨_, _, _, _, _, rfl⟩ :=
      (mem_entries_correlate_iff_of_bare hbare instructions anchors).mp he
    rfl
  · rw [overlapping_correlate] at hnone
    rw [← coveredBy_zero hmem, entries_correlate]
    exact tiles_entriesOf hnone
  · have hholes : ∀ e ∈ c.entries, e.instructions = [] → Hole instructions e.start e.stop := by
      intro e he hbare
      obtain ⟨before, i, behind, hsplit, hlt, rfl⟩ :=
        (mem_entries_correlate_iff_of_bare hbare instructions anchors).mp he
      rw [hsplit] at hsorted hmem
      exact hole_of_gap hmem hsorted hlt hpositive
    intro start stop
    constructor
    · rintro ⟨e, he, hbare, rfl, rfl⟩
      exact hholes e he hbare
    · intro hhole
      have hfirst := hhole.bare start le_rfl hhole.nonempty
      obtain ⟨e, he, hbare, hin⟩ := exists_bare_of_not_covered anchors
        (hhole.nonempty.trans_le hhole.stop_le) hfirst
      obtain ⟨hstart, hstop⟩ :=
        hhole.eq_of_mem (hholes e he hbare) ⟨le_rfl, hhole.nonempty⟩ hin
      exact ⟨e, he, hbare, hstart, hstop⟩

/-- Three instructions in any order: nothing stands in front of the first, the second follows it at
once, and between the second and the third there is room. -/
def codeWithHoles : List NativeInstruction :=
  [⟨8, 4, "ret", ""⟩, ⟨2, 2, "push", ""⟩, ⟨4, 1, "nop", ""⟩]

/-- The entries of this code under one anchor go from zero to twelve, and the room is a gap. -/
theorem correlation_covers_code_withHoles :
    (correlate codeWithHoles [⟨3, 4, none⟩]).anomalies.overlapping = 0 ∧
      Tiles 0 12 (correlate codeWithHoles [⟨3, 4, none⟩]).entries ∧
      (∀ i ∈ codeWithHoles, 0 < i.length) ∧ Hole codeWithHoles 5 8 := by
  have hsorted : (codeWithHoles.mergeSort fun i j => i.offset ≤ j.offset) =
      [⟨2, 2, "push", ""⟩, ⟨4, 1, "nop", ""⟩] ++ [⟨8, 4, "ret", ""⟩] := by
    simp [codeWithHoles, List.mergeSort, List.MergeSort.Internal.splitInTwo]
  have hnone : (correlate codeWithHoles [⟨3, 4, none⟩]).anomalies.overlapping = 0 := by
    rw [overlapping_correlate, hsorted]
    decide
  have hpositive : ∀ i ∈ codeWithHoles, 0 < i.length := by decide
  have hgap : gapEntry 5 8 ∈ (correlate codeWithHoles [⟨3, 4, none⟩]).entries :=
    (mem_entries_correlate_iff_of_bare rfl _ _).mpr ⟨_, _, [], hsorted, by decide, rfl⟩
  obtain ⟨_, _, _, htiles, hholes⟩ := correlation_covers_code codeWithHoles [⟨3, 4, none⟩]
  refine ⟨hnone, htiles hnone, hpositive, (hholes hpositive 5 8).mp ?_⟩
  exact ⟨gapEntry 5 8, hgap, rfl, rfl, rfl⟩

end CompileLog.Correlation

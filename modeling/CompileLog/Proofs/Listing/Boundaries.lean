import CompileLog.Proofs.Correlation.Unbroken
import CompileLog.Proofs.Listing.Anchors
import Mathlib.Data.List.Nodup

/-!
# A listing and its own anchors

The boundaries of a listing are its printed addresses, one for each and in order, and each
instruction runs up to the next address. The anchors of the listing lie at printed addresses as
well. Where every line is an instruction, both start from the lowest address: the code runs on
without gaps, an instruction starts at each anchor, and the correlation of the two has nothing to
count.
-/

namespace CompileLog

namespace Listing

/-! ### Printed addresses -/

/-- What stays of consecutive lines with one address are some of the lines. By induction on the
lines. -/
theorem mem_of_mem_dropRepeated {line : Line} {lines : List Line}
    (h : line ∈ dropRepeated lines) : line ∈ lines := by
  fun_induction dropRepeated lines with
  | case1 => exact h
  | case2 first rest ih =>
    rcases List.mem_cons.mp h with rfl | hlater
    · exact List.mem_cons_self
    · exact List.mem_cons_of_mem first ((List.dropWhile_sublist _).subset (ih hlater))

/-- Of each address a line stays. By induction on the lines. -/
theorem exists_mem_dropRepeated {line : Line} {lines : List Line} (h : line ∈ lines) :
    ∃ kept ∈ dropRepeated lines, kept.address = line.address := by
  fun_induction dropRepeated lines with
  | case1 => exact absurd h List.not_mem_nil
  | case2 first rest ih =>
    by_cases hsame : line.address = first.address
    · exact ⟨first, List.mem_cons_self, hsame.symm⟩
    · have hrest : line ∈ rest := by
        rcases List.mem_cons.mp h with rfl | hrest
        · exact absurd rfl hsame
        · exact hrest
      rw [← List.takeWhile_append_dropWhile (p := fun l => decide (l.address = first.address))
        (l := rest)] at hrest
      rcases List.mem_append.mp hrest with hdropped | hlater
      · exact absurd (by simpa using List.mem_takeWhile_imp hdropped) hsame
      · obtain ⟨kept, hkept, heq⟩ := ih hlater
        exact ⟨kept, List.mem_cons_of_mem first hkept, heq⟩

/-- Behind the lines with the least address only lines with greater ones follow. By induction on the
lines. -/
theorem lt_address_of_mem_dropWhile {address : UInt64} {lines : List Line}
    (hsorted : lines.Pairwise fun a b => a.address ≤ b.address)
    (hle : ∀ line ∈ lines, address ≤ line.address) :
    ∀ line ∈ lines.dropWhile fun l => l.address = address, address < line.address := by
  induction lines with
  | nil => simp
  | cons first rest ih =>
    obtain ⟨hfirst, hrest⟩ := List.pairwise_cons.mp hsorted
    by_cases heq : first.address = address
    · simp only [List.dropWhile_cons, heq, decide_true, if_true]
      exact ih hrest fun line hline => hle line (List.mem_cons_of_mem first hline)
    · simp only [List.dropWhile_cons, heq, decide_false, Bool.false_eq_true, if_false]
      have hlt : address < first.address :=
        UInt64.lt_of_le_of_ne (hle first List.mem_cons_self) (Ne.symm heq)
      intro line hline
      rcases List.mem_cons.mp hline with rfl | hlater
      · exact hlt
      · exact UInt64.lt_of_lt_of_le hlt (hfirst line hlater)

/-- Of lines in address order those stay whose addresses increase. By induction on the lines. -/
theorem increasing_dropRepeated {lines : List Line}
    (h : lines.Pairwise fun a b => a.address ≤ b.address) :
    (dropRepeated lines).Pairwise fun a b => a.address < b.address := by
  fun_induction dropRepeated lines with
  | case1 => exact .nil
  | case2 first rest ih =>
    obtain ⟨hfirst, hrest⟩ := List.pairwise_cons.mp h
    have hbehind := hrest.sublist (List.dropWhile_sublist fun l => l.address = first.address)
    refine List.pairwise_cons.mpr ⟨fun line hline => ?_, ih hbehind⟩
    exact lt_address_of_mem_dropWhile hrest hfirst line (mem_of_mem_dropRepeated hline)

/-- The addresses of the disassembled lines increase. -/
theorem increasing_printed (l : Listing) :
    l.printed.Pairwise fun a b => a.address < b.address :=
  increasing_dropRepeated (Correlation.pairwise_mergeSort_key Line.address _)

/-- A disassembled line is a line of the listing. -/
theorem mem_lines_of_mem_printed {l : Listing} {line : Line} (h : line ∈ l.printed) :
    line ∈ l.lines :=
  List.mem_of_mem_filter (List.mem_mergeSort.mp (mem_of_mem_dropRepeated h))

/-- Each address with a mnemonic is that of a disassembled line. -/
theorem exists_mem_printed {l : Listing} {line : Line} (hline : line ∈ l.lines)
    (hmnemonic : line.mnemonic ≠ "") : ∃ kept ∈ l.printed, kept.address = line.address := by
  refine exists_mem_dropRepeated (List.mem_mergeSort.mpr (List.mem_filter.mpr ⟨hline, ?_⟩))
  exact decide_eq_true hmnemonic

end Listing

/-! ### Boundaries -/

/-- The address at which an instruction starts. -/
def NativeInstruction.addressFrom (base : UInt64) (i : NativeInstruction) : Nat :=
  base.toNat + i.offset.toNat

/-- The addresses at which the instructions of a correlation start, entry by entry. -/
def Correlation.addresses (base : UInt64) (c : Correlation) : List Nat :=
  (c.entries.flatMap Correlation.Entry.instructions).map (NativeInstruction.addressFrom base)

namespace Listing

variable {base : UInt64} {lines : List Line}

/-- The offset of a line behind the base. -/
theorem toNat_offset {address : UInt64} (h : base ≤ address) :
    (address - base).toNat = address.toNat - base.toNat :=
  UInt64.toNat_sub_of_le _ _ h

/-- The last instruction has a byte, and ends at the end of the code or one byte behind its start.
-/
theorem lastLength_spec (codeEnd : Option UInt64) (offset : UInt64) :
    0 < (lastLength codeEnd offset).toNat ∧
      ((lastLength codeEnd offset).toNat = 1 ∨
        offset.toNat + (lastLength codeEnd offset).toNat < UInt64.size) := by
  unfold lastLength
  cases codeEnd with
  | none => exact ⟨Nat.one_pos, .inl rfl⟩
  | some stop =>
    simp only
    split_ifs with hlt
    · have hlt' := UInt64.lt_iff_toNat_lt.mp hlt
      have hstop := stop.toNat_lt_size
      rw [UInt64.toNat_sub_of_le _ _ (UInt64.le_of_lt hlt)]
      exact ⟨by omega, .inr (by omega)⟩
    · exact ⟨by decide, .inl rfl⟩

/-- An instruction starts at the address of each line. By induction on the lines. -/
theorem addresses_boundariesOf (codeEnd : Option UInt64)
    (hbase : ∀ line ∈ lines, base ≤ line.address) :
    (boundariesOf base codeEnd lines).map (NativeInstruction.addressFrom base) =
      lines.map fun line => line.address.toNat := by
  induction lines with
  | nil => rfl
  | cons line rest ih =>
    obtain ⟨hle, hrest⟩ := List.forall_mem_cons.mp hbase
    have hle' := UInt64.le_iff_toNat_le.mp hle
    have hstart : base.toNat + (line.address - base).toNat = line.address.toNat := by
      rw [toNat_offset hle]
      omega
    exact congrArg₂ List.cons hstart (ih hrest)

/-- Lines with increasing addresses are code that runs on from the first of them. By induction on
the lines. -/
theorem runsFrom_boundariesOf (codeEnd : Option UInt64) {first : Line}
    (hincreasing : (first :: lines).Pairwise fun a b => a.address < b.address)
    (hbase : base ≤ first.address) :
    Correlation.RunsFrom (first.address - base).toNat
      (boundariesOf base codeEnd (first :: lines)) := by
  induction lines generalizing first with
  | nil =>
    have hlength := (lastLength_spec codeEnd (first.address - base)).1
    exact ⟨rfl, Nat.lt_add_of_pos_right hlength, trivial⟩
  | cons next rest ih =>
    obtain ⟨hfirst, hrest⟩ := List.pairwise_cons.mp hincreasing
    have hlt := hfirst next List.mem_cons_self
    have hbase' := UInt64.le_trans hbase (UInt64.le_of_lt hlt)
    have hlater := ih hrest hbase'
    have hlt' := UInt64.lt_iff_toNat_lt.mp hlt
    have hle' := UInt64.le_iff_toNat_le.mp hbase
    have hstop : (first.address - base).toNat + (next.address - first.address).toNat =
        (next.address - base).toNat := by
      rw [toNat_offset hbase, toNat_offset hbase', toNat_offset (UInt64.le_of_lt hlt)]
      omega
    rw [boundariesOf]
    refine ⟨rfl, ?_, ?_⟩
    · show _ < (first.address - base).toNat + (next.address - first.address).toNat
      rw [toNat_offset (UInt64.le_of_lt hlt)]
      omega
    · show Correlation.RunsFrom
        ((first.address - base).toNat + (next.address - first.address).toNat) _
      rwa [hstop]

/-- Where no line has the greatest address, the ends of instructions are offsets too. By induction
on the lines. -/
theorem stop_lt_size (codeEnd : Option UInt64)
    (hincreasing : lines.Pairwise fun a b => a.address < b.address)
    (hbase : ∀ line ∈ lines, base ≤ line.address)
    (haddress : ∀ line ∈ lines, line.address.toNat + 1 < UInt64.size) :
    ∀ i ∈ boundariesOf base codeEnd lines, i.stop < UInt64.size := by
  induction lines with
  | nil => simp [boundariesOf]
  | cons line rest ih =>
    obtain ⟨hfirst, hrest⟩ := List.pairwise_cons.mp hincreasing
    obtain ⟨hle, hbaseRest⟩ := List.forall_mem_cons.mp hbase
    obtain ⟨hlt, haddressRest⟩ := List.forall_mem_cons.mp haddress
    have hoffset := toNat_offset hle
    refine List.forall_mem_cons.mpr ⟨?_, ih hrest hbaseRest haddressRest⟩
    cases rest with
    | nil =>
      show (line.address - base).toNat + (lastLength codeEnd (line.address - base)).toNat < _
      have hlength := (lastLength_spec codeEnd (line.address - base)).2
      omega
    | cons next rest =>
      have hnext := hfirst next List.mem_cons_self
      have hnextSize := next.address.toNat_lt_size
      have hle' := UInt64.le_iff_toNat_le.mp hle
      have hnext' := UInt64.lt_iff_toNat_lt.mp hnext
      show (line.address - base).toNat + (next.address - line.address).toNat < _
      rw [hoffset, toNat_offset (UInt64.le_of_lt hnext)]
      omega

/-- In a listing of instructions the lowest address comes first. -/
theorem printed_eq_cons {l : Listing} (hlines : l.lines ≠ [])
    (hprinted : ∀ line ∈ l.lines, line.mnemonic ≠ "") :
    ∃ first rest, l.printed = first :: rest ∧ l.base? = some first.address := by
  obtain ⟨line, hline⟩ := List.exists_mem_of_ne_nil _ hlines
  obtain ⟨kept, hkept, _⟩ := exists_mem_printed hline (hprinted line hline)
  have hincreasing := l.increasing_printed
  cases hprintedLines : l.printed with
  | nil =>
    rw [hprintedLines] at hkept
    exact absurd hkept List.not_mem_nil
  | cons first rest =>
    rw [hprintedLines] at hincreasing
    have hfirst : first ∈ l.lines := mem_lines_of_mem_printed (hprintedLines ▸ List.mem_cons_self)
    refine ⟨first, rest, rfl, List.min?_eq_some_iff.mpr ⟨List.mem_map_of_mem hfirst, ?_⟩⟩
    intro address haddress
    obtain ⟨other, hother, rfl⟩ := List.mem_map.mp haddress
    obtain ⟨kept, hkept, heq⟩ := exists_mem_printed hother (hprinted other hother)
    rw [hprintedLines] at hkept
    rw [← heq]
    rcases List.mem_cons.mp hkept with rfl | hlater
    · exact UInt64.le_refl _
    · exact UInt64.le_of_lt ((List.pairwise_cons.mp hincreasing).1 kept hlater)

/-- The disassembled lines of a listing of instructions have the addresses that it prints. -/
theorem mem_printed_addresses_iff {l : Listing}
    (hprinted : ∀ line ∈ l.lines, line.mnemonic ≠ "") {address : Nat} :
    (address ∈ l.printed.map fun line => line.address.toNat) ↔
      ∃ line ∈ l.lines, line.address.toNat = address := by
  rw [List.mem_map]
  constructor
  · rintro ⟨line, hline, heq⟩
    exact ⟨line, mem_lines_of_mem_printed hline, heq⟩
  · rintro ⟨line, hline, rfl⟩
    obtain ⟨kept, hkept, heq⟩ := exists_mem_printed hline (hprinted line hline)
    exact ⟨kept, hkept, congrArg UInt64.toNat heq⟩

section Boundaries

variable {l : Listing} (hbase : l.base? = some base)
include hbase

/-- The boundaries are those of the disassembled lines. -/
theorem boundaries_eq (codeEnd : Option UInt64) :
    l.boundaries codeEnd = boundariesOf base codeEnd l.printed := by
  unfold boundaries
  rw [hbase]

/-- No disassembled line lies in front of the base. -/
theorem base_le_printed : ∀ line ∈ l.printed, base ≤ line.address := fun _ hline =>
  base_le_address hbase (mem_lines_of_mem_printed hline)

/-- A boundary starts at the address of each disassembled line. -/
theorem addresses_boundaries (codeEnd : Option UInt64) :
    (l.boundaries codeEnd).map (NativeInstruction.addressFrom base) =
      l.printed.map fun line => line.address.toNat := by
  rw [boundaries_eq hbase, addresses_boundariesOf codeEnd (base_le_printed hbase)]

/-- In a listing of instructions a boundary starts at each of its anchors. -/
theorem exists_boundary_of_mem_anchors (hprinted : ∀ line ∈ l.lines, line.mnemonic ≠ "")
    (codeEnd : Option UInt64) :
    ∀ a ∈ l.anchors, ∃ i ∈ l.boundaries codeEnd, i.offset = a.offset := by
  intro a ha
  obtain ⟨base', hbase', line, hline, haddress⟩ := liesIn_of_mem_anchors ha
  obtain rfl := Option.some.inj (hbase.symm.trans hbase')
  have hstart := (mem_printed_addresses_iff hprinted).mpr ⟨line, hline, rfl⟩
  rw [← addresses_boundaries hbase codeEnd] at hstart
  obtain ⟨i, hi, heq⟩ := List.mem_map.mp hstart
  have hoffset : i.offset.toNat = a.offset.toNat := Nat.add_left_cancel (heq.trans haddress.symm)
  exact ⟨i, hi, UInt64.toNat_inj.mp hoffset⟩

end Boundaries

/-- The boundaries of a listing of instructions are code that runs on from offset zero. -/
theorem runsFrom_boundaries {l : Listing} (hlines : l.lines ≠ [])
    (hprinted : ∀ line ∈ l.lines, line.mnemonic ≠ "") (codeEnd : Option UInt64) :
    Correlation.RunsFrom 0 (l.boundaries codeEnd) := by
  obtain ⟨first, rest, hlisted, hbase⟩ := printed_eq_cons hlines hprinted
  have hincreasing := l.increasing_printed
  rw [hlisted] at hincreasing
  have hfrom := runsFrom_boundariesOf codeEnd hincreasing (UInt64.le_refl first.address)
  rwa [UInt64.sub_self, ← hlisted, ← boundaries_eq hbase] at hfrom

end Listing

/-- The correlation of a listing with its own anchors is exact. Let a listing have lines, all of
them instructions, at any addresses but the greatest, in any order and some of them repeated. Then
no problem of any kind is counted; every printed address is the start of exactly one instruction,
and no other address is; the entries go from zero to the end of the last instruction, each from
where the one before it ends, and each has instructions. No instruction ends beyond 64 bits. -/
theorem listing_correlates_exactly {l : Listing} (hlines : l.lines ≠ [])
    (hprinted : ∀ line ∈ l.lines, line.mnemonic ≠ "")
    (haddress : ∀ line ∈ l.lines, line.address.toNat + 1 < UInt64.size)
    (codeEnd : Option UInt64) :
    let c := correlate (l.boundaries codeEnd) l.anchors
    ∃ base ∈ l.base?, ∃ last ∈ (l.boundaries codeEnd).getLast?,
      c.anomalies = ⟨0, 0, 0⟩ ∧
      (c.addresses base).Pairwise (· < ·) ∧
      (∀ line ∈ l.lines, (c.addresses base).count line.address.toNat = 1) ∧
      (∀ address ∈ c.addresses base, ∃ line ∈ l.lines, line.address.toNat = address) ∧
      c.entries.head?.map Correlation.Entry.start = some 0 ∧
      Correlation.Tiles 0 last.stop c.entries ∧
      (∀ e ∈ c.entries, e.instructions ≠ []) ∧
      ∀ i ∈ l.boundaries codeEnd, i.stop < UInt64.size := by
  intro c
  obtain ⟨first, rest, hlisted, hbase⟩ := Listing.printed_eq_cons hlines hprinted
  have hruns := Listing.runsFrom_boundaries hlines hprinted codeEnd
  have hcode : l.boundaries codeEnd ≠ [] := by
    rw [Listing.boundaries_eq hbase, hlisted]
    exact List.cons_ne_nil _ _
  have haddresses : c.addresses first.address =
      l.printed.map fun line => line.address.toNat := by
    unfold Correlation.addresses
    rw [hruns.flatMap_instructions, Listing.addresses_boundaries hbase]
  have hordered : (c.addresses first.address).Pairwise (· < ·) := by
    rw [haddresses, List.pairwise_map]
    exact l.increasing_printed.imp UInt64.lt_iff_toNat_lt.mp
  have hstarts : ∀ address, address ∈ c.addresses first.address ↔
      ∃ line ∈ l.lines, line.address.toNat = address := fun address => by
    rw [haddresses]
    exact Listing.mem_printed_addresses_iff hprinted
  have hlast := List.getLast?_eq_some_getLast hcode
  refine ⟨first.address, hbase, _, hlast,
    hruns.anomalies_eq (Listing.exists_boundary_of_mem_anchors hbase hprinted codeEnd), hordered,
    fun line hline => ?_, fun address => (hstarts address).mp, hruns.head?_start l.anchors hcode,
    hruns.tiles l.anchors hlast, fun e => hruns.instructions_ne_nil l.anchors, ?_⟩
  · exact List.count_eq_one_of_mem (hordered.imp Nat.ne_of_lt) ((hstarts _).mpr ⟨line, hline, rfl⟩)
  · rw [Listing.boundaries_eq hbase]
    exact Listing.stop_lt_size codeEnd l.increasing_printed (Listing.base_le_printed hbase)
      fun line hline => haddress line (Listing.mem_lines_of_mem_printed hline)

/-- A stub printed in front of the code that it stands behind, and again at the code's end. -/
def stubFirst : Listing :=
  let printedAt (address : UInt64) (comments : List String) : Listing.Line :=
    ⟨address, "nop", "", [], comments⟩
  { Listing.blank with
    blocks :=
      [⟨"[Stub Code]", [printedAt 0x28 ["; - A::a@7"]]⟩,
        ⟨"[Entry Point]",
          [printedAt 0x20 ["; - A::a@0 (line 3)"], printedAt 0x24 [],
            printedAt 0x28 ["; - A::a@7"]]⟩] }

/-- The stub's address is the start of one instruction, and the code is gone through in address
order. -/
theorem listing_correlates_exactly_stubFirst :
    stubFirst.lines ≠ [] ∧ (∀ line ∈ stubFirst.lines, line.mnemonic ≠ "") ∧
      (∀ line ∈ stubFirst.lines, line.address.toNat + 1 < UInt64.size) ∧
      let c := correlate (stubFirst.boundaries (some 0x10)) stubFirst.anchors
      c.anomalies = ⟨0, 0, 0⟩ ∧ (c.addresses 0x20).count 0x28 = 1 ∧
        c.entries.head?.map Correlation.Entry.start = some 0 := by
  have hlines : stubFirst.lines ≠ [] := by decide
  have hprinted : ∀ line ∈ stubFirst.lines, line.mnemonic ≠ "" := by decide
  have haddress : ∀ line ∈ stubFirst.lines, line.address.toNat + 1 < UInt64.size := by decide
  obtain ⟨base, hbase, _, _, hnone, _, hcount, _, hhead, _⟩ :=
    listing_correlates_exactly hlines hprinted haddress (some 0x10)
  have hlowest : stubFirst.base? = some 0x20 := by decide
  obtain rfl := Option.some.inj (hlowest.symm.trans hbase)
  have hstub : (⟨0x28, "nop", "", [], ["; - A::a@7"]⟩ : Listing.Line) ∈ stubFirst.lines := by decide
  exact ⟨hlines, hprinted, haddress, hnone, hcount _ hstub, hhead⟩

end CompileLog

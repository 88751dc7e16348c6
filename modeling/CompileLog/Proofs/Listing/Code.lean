import CompileLog.Proofs.Listing.Anchors

/-!
# The machine code of a listing

The raw bytes of a listing are put together into one image, as long as the listing spans. The limit
decides only whether there is one: whatever limit allows the span gives the same image. All bytes
that are printed lie in it; where several lines cover an address the last of them counts, and where
none does the image is zero. A listing that prints no bytes spans none.
-/

namespace CompileLog

namespace Listing

/-! ### The span -/

/-- The bytes of a line end within the span, as far as 64 bits tell. -/
theorem stop_le_codeSpan {l : Listing} {base : UInt64} (hbase : l.base? = some base) {line : Line}
    (hline : line ∈ l.lines) (hbytes : line.bytes ≠ []) :
    min (line.offsetFrom base + line.bytes.length) (UInt64.size - 1) ≤ l.codeSpan := by
  let stop (line : Line) := min (line.offsetFrom base + line.bytes.length) (UInt64.size - 1)
  have hmem : line ∈ l.lines.filter fun line => !line.bytes.isEmpty :=
    List.mem_filter.mpr ⟨hline, by simpa using hbytes⟩
  have hfold := List.le_max?_getD_of_mem (k := 0) (List.mem_map_of_mem (f := stop) hmem)
  unfold codeSpan
  rw [hbase]
  show stop line ≤ (l.lines.filter fun line => !line.bytes.isEmpty).foldl
    (fun span line => max span (stop line)) 0
  rw [← List.foldl_map (f := stop) (g := max), List.foldl_max]
  omega

/-- A listing that prints bytes spans some. -/
theorem codeSpan_pos {l : Listing} {line : Line} (hline : line ∈ l.lines)
    (hbytes : line.bytes ≠ []) : 0 < l.codeSpan := by
  have hprinted : 0 < line.bytes.length := List.length_pos_iff.mpr hbytes
  have hwidth : 0 < UInt64.size - 1 := by decide
  cases hbase : l.base? with
  | none =>
    rw [lines_eq_nil hbase] at hline
    exact absurd hline List.not_mem_nil
  | some base =>
    have hstop := stop_le_codeSpan hbase hline hbytes
    omega

/-- A listing that spans some bytes prints a line. -/
theorem base?_isSome_of_codeSpan_pos {l : Listing} (h : 0 < l.codeSpan) : l.base?.isSome := by
  cases hbase : l.base? with
  | some base => rfl
  | none =>
    unfold codeSpan at h
    rw [hbase] at h
    exact absurd h (Nat.lt_irrefl 0)

/-! ### The image -/

/-- Writing over an image keeps its length. By induction on the bytes. -/
theorem size_writeBytes (image : Array UInt8) (offset : Nat) (bytes : List UInt8) :
    (writeBytes image offset bytes).size = image.size := by
  induction bytes generalizing image offset with
  | nil => rfl
  | cons b rest ih =>
    unfold writeBytes
    rw [ih, Array.size_setIfInBounds]

/-- Writing line by line over an image keeps its length. By induction on the lines. -/
theorem size_foldl_writeBytes (base : UInt64) (lines : List Line) (image : Array UInt8) :
    (lines.foldl (fun image line => writeBytes image (line.offsetFrom base) line.bytes)
      image).size = image.size := by
  induction lines generalizing image with
  | nil => rfl
  | cons line rest ih => rw [List.foldl_cons, ih, size_writeBytes]

/-- The machine code of a listing from its base on, without a limit. -/
def image (l : Listing) (base : UInt64) : Array UInt8 :=
  (l.lines.filter fun line => !line.bytes.isEmpty).foldl
    (fun image line => writeBytes image (line.offsetFrom base) line.bytes)
    (Array.replicate l.codeSpan 0)

/-- The image is as long as the listing spans. -/
theorem size_image (l : Listing) (base : UInt64) : (l.image base).size = l.codeSpan := by
  unfold image
  rw [size_foldl_writeBytes, Array.size_replicate]

/-- A listing that spans more than the limit is refused. -/
theorem code_of_lt {l : Listing} {limit : Nat} (h : limit < l.codeSpan) :
    l.code limit = .error ⟨l.codeSpan, limit⟩ := by
  unfold code
  rw [if_pos h]

/-- A listing within the limit gives its image. -/
theorem code_of_le {l : Listing} {base : UInt64} (hbase : l.base? = some base) {limit : Nat}
    (h : l.codeSpan ≤ limit) : l.code limit = .ok (l.image base).toList := by
  unfold code image
  rw [if_neg (Nat.not_lt.mpr h), hbase]

/-- A listing without lines gives no bytes. -/
theorem code_of_none {l : Listing} (hbase : l.base? = none) {limit : Nat}
    (h : l.codeSpan ≤ limit) : l.code limit = .ok [] := by
  unfold code
  rw [if_neg (Nat.not_lt.mpr h), hbase]

/-- Every limit that a listing stays within gives the same image, as long as the listing spans. -/
theorem exists_code (l : Listing) : ∃ bytes : List UInt8, bytes.length = l.codeSpan ∧
    ∀ limit, l.codeSpan ≤ limit → l.code limit = .ok bytes := by
  cases hbase : l.base? with
  | none =>
    refine ⟨[], ?_, fun limit => code_of_none hbase⟩
    unfold codeSpan
    rw [hbase]
    rfl
  | some base =>
    exact ⟨_, by rw [Array.length_toList, size_image], fun limit => code_of_le hbase⟩

/-! ### The bytes of the image -/

/-- The byte that a line gives for an address, if it covers the address. -/
def Line.byteAt? (address : Nat) (line : Line) : Option UInt8 :=
  if line.address.toNat ≤ address then line.bytes[address - line.address.toNat]? else none

/-- A line covers an address behind the base as its offset says. -/
theorem Line.byteAt?_of_le {base : UInt64} {line : Line} (h : base ≤ line.address) (k : Nat) :
    line.byteAt? (base.toNat + k) =
      if line.offsetFrom base ≤ k then line.bytes[k - line.offsetFrom base]? else none := by
  have hle := UInt64.le_iff_toNat_le.mp h
  have hindex : base.toNat + k - line.address.toNat = k - (line.address.toNat - base.toNat) := by
    omega
  unfold Line.byteAt? Line.offsetFrom
  rw [hindex]
  congr 1
  exact propext (by omega)

/-- Writing bytes over an image changes the places that they cover. By induction on the bytes. -/
theorem getElem?_writeBytes (image : Array UInt8) (offset : Nat) (bytes : List UInt8) {k : Nat}
    (hk : k < image.size) :
    (writeBytes image offset bytes)[k]? =
      (if offset ≤ k then bytes[k - offset]? else none).or image[k]? := by
  induction bytes generalizing image offset with
  | nil => simp [writeBytes]
  | cons b rest ih =>
    have hsize : k < (image.setIfInBounds offset b).size := by
      rwa [Array.size_setIfInBounds]
    rw [writeBytes, ih _ _ hsize, Array.getElem?_setIfInBounds]
    rcases Nat.lt_trichotomy offset k with hlt | rfl | hgt
    · have hindex : k - offset = k - (offset + 1) + 1 := by omega
      rw [if_pos (by omega), if_neg (by omega), if_pos (by omega), hindex, List.getElem?_cons_succ]
    · rw [if_neg (by omega), if_pos rfl, if_pos hk, if_pos (Nat.le_refl _), Nat.sub_self]
      rfl
    · rw [if_neg (by omega), if_neg (by omega), if_neg (by omega)]

/-- Writing line by line, the last line that covers a place counts. By induction on the lines. -/
theorem getElem?_foldl_writeBytes {base : UInt64} {lines : List Line}
    (hbase : ∀ line ∈ lines, base ≤ line.address) (image : Array UInt8) {k : Nat}
    (hk : k < image.size) :
    (lines.foldl (fun image line => writeBytes image (line.offsetFrom base) line.bytes) image)[k]? =
      ((lines.filterMap (Line.byteAt? (base.toNat + k))).getLast?).or image[k]? := by
  induction lines generalizing image with
  | nil => rfl
  | cons line rest ih =>
    obtain ⟨hline, hrest⟩ := List.forall_mem_cons.mp hbase
    have hsize : k < (writeBytes image (line.offsetFrom base) line.bytes).size := by
      rwa [size_writeBytes]
    rw [List.foldl_cons, ih hrest _ hsize, getElem?_writeBytes _ _ _ hk, ← Line.byteAt?_of_le hline,
      ← Option.or_assoc]
    congr 1
    cases hbyte : line.byteAt? (base.toNat + k) with
    | none => rw [List.filterMap_cons_none hbyte, Option.or_none]
    | some b =>
      rw [List.filterMap_cons_some hbyte, List.getLast?_cons]
      cases (rest.filterMap (Line.byteAt? (base.toNat + k))).getLast? <;> rfl

/-- A line without bytes covers no address, so that leaving out such lines leaves out no byte. -/
theorem filterMap_byteAt? (lines : List Line) (address : Nat) :
    (lines.filter fun line => !line.bytes.isEmpty).filterMap (Line.byteAt? address) =
      lines.filterMap (Line.byteAt? address) := by
  rw [List.filterMap_filter]
  congr 1
  funext line
  split
  · rfl
  · next hempty =>
    have hnone : line.bytes = [] := by simpa using hempty
    unfold Line.byteAt?
    rw [hnone]
    split <;> rfl

/-- A byte of the image is that of the last line that covers its address, else zero. -/
theorem getElem?_image {l : Listing} {base : UInt64} (hbase : l.base? = some base) {k : Nat}
    (hk : k < l.codeSpan) :
    (l.image base)[k]? =
      some ((l.lines.filterMap (Line.byteAt? (base.toNat + k))).getLast?.getD 0) := by
  unfold image
  have hbehind : ∀ line ∈ l.lines.filter fun line => !line.bytes.isEmpty, base ≤ line.address :=
    fun line hline => base_le_address hbase (List.mem_filter.mp hline).1
  rw [getElem?_foldl_writeBytes hbehind _ (by rwa [Array.size_replicate]), filterMap_byteAt?,
    Array.getElem?_replicate, if_pos hk]
  cases (l.lines.filterMap (Line.byteAt? (base.toNat + k))).getLast? <;> rfl

end Listing

/-- The machine code is put together from the raw bytes as printed. Let there be a limit, the usual
one at most. A listing is refused exactly if it spans more than the limit, and the refusal tells
both. Every other listing gives as many bytes as it spans. Each line with bytes starts at the base
or behind it and ends within the code. The byte at an offset is the one that the last line gives
that covers the address, and zero where none does. -/
theorem code_reassembled (l : Listing) {limit : Nat} (hlimit : limit ≤ maxCodeSpan) :
    (∀ e, l.code limit = .error e ↔ limit < l.codeSpan ∧ e = ⟨l.codeSpan, limit⟩) ∧
      (l.codeSpan ≤ limit → ∃ bytes, l.code limit = .ok bytes ∧ bytes.length = l.codeSpan ∧
        ∀ base ∈ l.base?,
          (∀ line ∈ l.lines, line.bytes ≠ [] →
            base ≤ line.address ∧ line.offsetFrom base + line.bytes.length ≤ bytes.length) ∧
          ∀ k < bytes.length, bytes[k]? = some
            ((l.lines.filterMap (Listing.Line.byteAt? (base.toNat + k))).getLast?.getD 0)) := by
  refine ⟨fun e => ?_, fun hspan => ?_⟩
  · by_cases hspan : limit < l.codeSpan
    · rw [Listing.code_of_lt hspan, Except.error.injEq]
      exact ⟨fun h => ⟨hspan, h.symm⟩, fun h => h.2.symm⟩
    · obtain ⟨bytes, _, hcode⟩ := l.exists_code
      rw [hcode limit (Nat.not_lt.mp hspan)]
      exact ⟨nofun, fun h => absurd h.1 hspan⟩
  · cases hbase : l.base? with
    | none =>
      obtain ⟨bytes, hlength, hcode⟩ := l.exists_code
      exact ⟨bytes, hcode limit hspan, hlength, fun base h => by cases h⟩
    | some base =>
      have hlength : (l.image base).toList.length = l.codeSpan := by
        rw [Array.length_toList, Listing.size_image]
      refine ⟨_, Listing.code_of_le hbase hspan, hlength, ?_⟩
      rintro _ ⟨⟩
      rw [hlength]
      refine ⟨fun line hline hbytes => ⟨Listing.base_le_address hbase hline, ?_⟩, fun k hk => ?_⟩
      · -- Within the limit the span is below what 64 bits tell.
        have hstop := Listing.stop_le_codeSpan hbase hline hbytes
        have hwidth : maxCodeSpan < UInt64.size - 1 := by decide
        omega
      · rw [Array.getElem?_toList, Listing.getElem?_image hbase hk]

/-- A dump whose base comes from a line without bytes, and whose last line goes back and over the
one before it. -/
def backwardDump : Listing :=
  let printedAt (address : UInt64) (bytes : List UInt8) : Listing.Line :=
    ⟨address, "", "", bytes, []⟩
  { Listing.blank with
    blocks := [⟨"[Entry Point]",
      [printedAt 0x10 [], printedAt 0x14 [1, 2, 3, 4], printedAt 0x12 [5, 6, 7]]⟩] }

/-- Eight bytes are spanned: two that no line covers, three of the last line, and what is left of
the one before it. A limit of seven refuses them. -/
theorem code_reassembled_backward :
    8 ≤ maxCodeSpan ∧ 7 ≤ maxCodeSpan ∧ backwardDump.codeSpan = 8 ∧
      backwardDump.code 7 = .error ⟨8, 7⟩ ∧
      ∃ bytes, backwardDump.code 8 = .ok bytes ∧ bytes.length = 8 ∧
        bytes[1]? = some 0 ∧ bytes[4]? = some 7 ∧ bytes[5]? = some 2 := by
  have hspan : backwardDump.codeSpan = 8 := by decide
  have hbase : backwardDump.base? = some 0x10 := by decide
  have hlimit : 8 ≤ maxCodeSpan := by decide
  have hlimit' : 7 ≤ maxCodeSpan := by decide
  have hrefused := ((code_reassembled backwardDump hlimit').1 ⟨8, 7⟩).mpr (by rw [hspan]; decide)
  obtain ⟨bytes, hcode, hlength, hbytes⟩ :=
    (code_reassembled backwardDump hlimit).2 (Nat.le_of_eq hspan)
  have hbyte := (hbytes 0x10 hbase).2
  rw [hspan] at hlength
  refine ⟨hlimit, hlimit', hspan, hrefused, bytes, hcode, hlength, ?_, ?_, ?_⟩
  · rw [hbyte 1 (by omega)]
    decide
  · rw [hbyte 4 (by omega)]
    decide
  · rw [hbyte 5 (by omega)]
    decide

end CompileLog

import CompileLog.Text.Utf8
import Mathlib.Tactic.SplitIfs

/-!
# Reading back encoded text

The bytes of a text are read as its characters, none of them broken. A character is written with
one to four bytes; each length has its own range of code points, and within it the lead byte tells
the length and no byte falls into the ranges that are kept out.
-/

namespace CompileLog.Text.Utf8

/-! ### Bytes -/

/-- The bytes of an array from a position on, behind those already taken. By induction on the
number of those left. -/
theorem toList_loop (bytes : ByteArray) (i : Nat) (taken : List UInt8) :
    ByteArray.toList.loop bytes i taken = taken.reverse ++ bytes.data.toList.drop i := by
  induction hleft : bytes.size - i generalizing i taken with
  | zero =>
    have hlength : bytes.data.toList.length ≤ i := by
      rw [Array.length_toList]
      exact Nat.le_of_sub_eq_zero hleft
    rw [ByteArray.toList.loop, if_neg (by omega), List.drop_eq_nil_of_le hlength, List.append_nil]
  | succ left ih =>
    have hi : i < bytes.data.toList.length := by
      rw [Array.length_toList]
      show i < bytes.size
      omega
    have hget : bytes.get! i = bytes.data.toList[i] := by
      show bytes.data[i]! = _
      rw [Array.getElem_toList]
      exact getElem!_pos bytes.data i _
    rw [ByteArray.toList.loop, if_pos (by omega), ih (i + 1) _ (by omega), hget,
      List.drop_eq_getElem_cons hi, List.reverse_cons, List.append_assoc, List.singleton_append]

/-- The bytes of a text are those of its characters. -/
theorem encode_eq (text : String) :
    encode text = text.toList.flatMap String.utf8EncodeChar := by
  have hbytes : text.toUTF8.data = (text.toList.flatMap String.utf8EncodeChar).toArray := by
    rw [← List.data_toByteArray]
    exact congrArg ByteArray.data String.utf8Encode_toList.symm
  show ByteArray.toList.loop text.toUTF8 0 [] = _
  rw [toList_loop, hbytes, List.reverse_nil, List.nil_append, List.drop_zero]

/-! ### Characters -/

/-- Six bits behind the mark of a continuation byte. -/
def tail (n : Nat) : UInt8 := UInt8.ofNat (n % 64 + 128)

/-- A marked byte continues a character. -/
theorem isContinuation_tail (n : Nat) : isContinuation (tail n) = true := by
  simp [isContinuation, tail, UInt8.le_iff_toNat_le]
  omega

/-- The six bits of a marked byte. -/
theorem payload_tail (n : Nat) : payload (tail n) = n % 64 := by
  simp [payload, tail]
  omega

variable {v : Nat} (rest : List UInt8)

/-- What a code point of one byte is read as. -/
theorem next_one (hhigh : v < 0x80) : next (UInt8.ofNat v) rest = (some (Char.ofNat v), rest) := by
  have hlead : (UInt8.ofNat v).toNat = v := by
    rw [UInt8.toNat_ofNat']
    omega
  have hfirst : UInt8.ofNat v < 0x80 := by
    rw [UInt8.lt_iff_toNat_lt, hlead]
    exact hhigh
  rw [next, if_pos hfirst, hlead]

/-- What a code point of two bytes is read as. -/
theorem next_two (hlow : 0x80 ≤ v) (hhigh : v < 0x800) :
    next (UInt8.ofNat (v / 64 % 32 + 192)) (tail v :: rest) = (some (Char.ofNat v), rest) := by
  generalize hlead : UInt8.ofNat (v / 64 % 32 + 192) = lead
  have hnat : lead.toNat = v / 64 + 192 := by
    rw [← hlead, UInt8.toNat_ofNat']
    omega
  have hvalue : lead.toNat % 32 * 64 + v % 64 = v := by omega
  have hrange : ¬ lead < 0x80 ∧ (0xC2 ≤ lead && lead ≤ 0xDF) = true := by
    simp [UInt8.lt_iff_toNat_lt, UInt8.le_iff_toNat_le, hnat]
    omega
  rw [next, if_neg hrange.1, if_pos hrange.2, two, if_pos (isContinuation_tail v), payload_tail,
    hvalue]

/-- What a code point of three bytes is read as. -/
theorem next_three (hlow : 0x800 ≤ v) (hhigh : v < 0x10000) (hvalid : v < 0xD800 ∨ 0xDFFF < v) :
    next (UInt8.ofNat (v / 4096 % 16 + 224)) (tail (v / 64) :: tail v :: rest) =
      (some (Char.ofNat v), rest) := by
  generalize hlead : UInt8.ofNat (v / 4096 % 16 + 224) = lead
  have hnat : lead.toNat = v / 4096 + 224 := by
    rw [← hlead, UInt8.toNat_ofNat']
    omega
  have hvalue : (lead.toNat % 16 * 64 + v / 64 % 64) * 64 + v % 64 = v := by omega
  have hrange : ¬ lead < 0x80 ∧ ¬ (0xC2 ≤ lead && lead ≤ 0xDF) = true ∧
      (0xE0 ≤ lead && lead ≤ 0xEF) = true := by
    simp [UInt8.lt_iff_toNat_lt, UInt8.le_iff_toNat_le, hnat]
    omega
  -- The lead bytes 0xE0 and 0xED keep out overlong forms and surrogates.
  have hfollows : mayFollowThree lead (tail (v / 64)) = true := by
    unfold mayFollowThree
    split_ifs with hfirst hlast
    · simp [← UInt8.toNat_inj, hnat, tail, UInt8.le_iff_toNat_le] at hfirst ⊢
      omega
    · simp [← UInt8.toNat_inj, hnat, tail, UInt8.le_iff_toNat_le] at hlast ⊢
      omega
    · exact isContinuation_tail _
  rw [next, if_neg hrange.1, if_neg hrange.2.1, if_pos hrange.2.2, three, if_pos hfollows]
  simp only [isContinuation_tail, if_true, payload_tail, hvalue]

/-- What a code point of four bytes is read as. -/
theorem next_four (hlow : 0x10000 ≤ v) (hhigh : v < 0x110000) :
    next (UInt8.ofNat (v / 262144 % 8 + 240))
        (tail (v / 4096) :: tail (v / 64) :: tail v :: rest) = (some (Char.ofNat v), rest) := by
  generalize hlead : UInt8.ofNat (v / 262144 % 8 + 240) = lead
  have hnat : lead.toNat = v / 262144 + 240 := by
    rw [← hlead, UInt8.toNat_ofNat']
    omega
  have hvalue : ((lead.toNat % 8 * 64 + v / 4096 % 64) * 64 + v / 64 % 64) * 64 + v % 64 = v := by
    omega
  have hrange : ¬ lead < 0x80 ∧ ¬ (0xC2 ≤ lead && lead ≤ 0xDF) = true ∧
      ¬ (0xE0 ≤ lead && lead ≤ 0xEF) = true ∧ (0xF0 ≤ lead && lead ≤ 0xF4) = true := by
    simp [UInt8.lt_iff_toNat_lt, UInt8.le_iff_toNat_le, hnat]
    omega
  -- The lead bytes 0xF0 and 0xF4 keep out overlong forms and what lies past the last code point.
  have hfollows : mayFollowFour lead (tail (v / 4096)) = true := by
    unfold mayFollowFour
    split_ifs with hfirst hlast
    · simp [← UInt8.toNat_inj, hnat, tail, UInt8.le_iff_toNat_le] at hfirst ⊢
      omega
    · simp [← UInt8.toNat_inj, hnat, tail, UInt8.le_iff_toNat_le] at hlast ⊢
      omega
    · exact isContinuation_tail _
  rw [next, if_neg hrange.1, if_neg hrange.2.1, if_neg hrange.2.2.1, if_pos hrange.2.2.2, four,
    if_pos hfollows]
  simp only [isContinuation_tail, if_true, payload_tail, hvalue]

/-- The bytes of a character are read as it, whatever follows them. -/
theorem characters_encodeChar (c : Char) :
    characters (String.utf8EncodeChar c ++ rest) = some c :: characters rest := by
  have hvalid : c.val.toNat < 0xD800 ∨ 0xDFFF < c.val.toNat ∧ c.val.toNat < 0x110000 := c.valid
  have hback : Char.ofNat c.val.toNat = c := Char.ofNat_toNat c
  have hread : ∀ lead more, String.utf8EncodeChar c = lead :: more →
      next lead (more ++ rest) = (some (Char.ofNat c.val.toNat), rest) →
      characters (String.utf8EncodeChar c ++ rest) = some c :: characters rest := by
    intro lead more hbytes hnext
    rw [hbytes, List.cons_append, characters, hnext, hback]
  by_cases hone : c.val.toNat ≤ 127
  · refine hread (UInt8.ofNat c.val.toNat) [] ?_ (next_one rest (by omega))
    simp only [String.utf8EncodeChar, hone, if_true]
  by_cases htwo : c.val.toNat ≤ 2047
  · refine hread _ [tail c.val.toNat] ?_ (next_two rest (by omega) (by omega))
    simp only [String.utf8EncodeChar, hone, htwo, if_true, if_false]
    rfl
  by_cases hthree : c.val.toNat ≤ 65535
  · refine hread _ [tail (c.val.toNat / 64), tail c.val.toNat] ?_
      (next_three rest (by omega) (by omega) (by omega))
    simp only [String.utf8EncodeChar, hone, htwo, hthree, if_true, if_false]
    rfl
  · refine hread _ [tail (c.val.toNat / 4096), tail (c.val.toNat / 64), tail c.val.toNat] ?_
      (next_four rest (by omega) (by omega))
    simp only [String.utf8EncodeChar, hone, htwo, hthree, if_false]
    rfl

/-- The bytes of a text are read as its characters. By induction on the characters. -/
theorem characters_encode (text : String) :
    characters (encode text) = text.toList.map some := by
  rw [encode_eq]
  induction text.toList with
  | nil => simp [characters]
  | cons c cs ih => rw [List.flatMap_cons, characters_encodeChar, ih, List.map_cons]

end CompileLog.Text.Utf8

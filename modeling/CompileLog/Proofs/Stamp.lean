import CompileLog.Proofs.Text.Numeral
import CompileLog.Stamp
import Mathlib.Algebra.Order.Floor.Semifield
import Mathlib.Data.List.TakeWhile
import Mathlib.Data.Rat.Floor
import Mathlib.Tactic.FieldSimp

/-!
# Stamps are exact

A stamp is the number of whole microseconds in the decimal seconds that a text writes, whatever the
length of the text: it is cut and not rounded, and refused only where that number exceeds 64 bits.
So it depends on the number that is written alone, grows with it, and digits past the sixth decimal
do not count.
-/

namespace CompileLog

open Text

namespace Stamp

/-! ### Decimal seconds -/

/-- A text writes decimal seconds, blanks around them apart: digits, and perhaps a point and more
digits. One of the two runs of digits may be empty. -/
structure Writes (text : String) (whole fraction : List Char) : Prop where
  /-- A point may be missing if no digits follow. -/
  spelled : trim text.toList = whole ++ '.' :: fraction ∨
    trim text.toList = whole ∧ fraction = []
  /-- The whole seconds are decimal digits. -/
  whole_digits : ∀ c ∈ whole, isDigit c = true
  /-- So are the decimals. -/
  fraction_digits : ∀ c ∈ fraction, isDigit c = true
  /-- There is a digit. -/
  ne_nil : whole ≠ [] ∨ fraction ≠ []

/-- The seconds that digits in front of a point and behind it stand for. -/
def seconds (whole fraction : List Char) : ℚ :=
  numberOf 10 digit? whole + numberOf 10 digit? fraction / 10 ^ fraction.length

/-- The whole microseconds in these. -/
def wholeMicros (whole fraction : List Char) : ℕ := ⌊seconds whole fraction * 10 ^ 6⌋₊

/-- The point is no digit. -/
theorem ne_point_of_isDigit {c : Char} (h : isDigit c = true) : c ≠ '.' := by
  rintro rfl
  exact absurd h (by decide)

variable {text text' : String} {whole fraction whole' fraction' : List Char}

/-- What a text writes is found in front of its first point and behind it. -/
theorem Writes.parts_eq (h : Writes text whole fraction) :
    parts (trim text.toList) = (whole, fraction) := by
  have hpoint : ∀ c ∈ whole, decide (c ≠ '.') = true := fun c hc =>
    decide_eq_true (ne_point_of_isDigit (h.whole_digits c hc))
  unfold parts splitAt?
  rcases h.spelled with hspelled | ⟨hspelled, rfl⟩
  · rw [hspelled, List.dropWhile_append_of_pos hpoint, List.takeWhile_append_of_pos hpoint]
    simp
  · have hnone : whole.dropWhile (fun c => decide (c ≠ '.')) = [] :=
      List.dropWhile_eq_nil_iff.mpr fun c hc => hpoint c hc
    rw [hspelled, hnone]
    rfl

/-- A text that is cut at its first point writes what is in front of it and behind it, if these are
digits and not both empty. -/
theorem writes_of_parts (hparts : parts (trim text.toList) = (whole, fraction))
    (hwhole : ∀ c ∈ whole, isDigit c = true) (hfraction : ∀ c ∈ fraction, isDigit c = true)
    (hne : whole ≠ [] ∨ fraction ≠ []) : Writes text whole fraction := by
  refine ⟨?_, hwhole, hfraction, hne⟩
  have hboth := List.takeWhile_append_dropWhile (p := fun c => decide (c ≠ '.'))
    (l := trim text.toList)
  unfold parts splitAt? at hparts
  cases hrest : (trim text.toList).dropWhile fun c => decide (c ≠ '.') with
  | nil =>
    rw [hrest] at hparts
    obtain ⟨rfl, rfl⟩ := Prod.mk.inj hparts
    exact .inr ⟨rfl, rfl⟩
  | cons c after =>
    have hc : c = '.' := by
      have hhead := List.head?_dropWhile_not (fun c => decide (c ≠ '.')) (trim text.toList)
      rw [hrest] at hhead
      simpa using hhead
    rw [hrest] at hparts hboth
    obtain ⟨rfl, rfl⟩ := Prod.mk.inj hparts
    rw [hc] at hboth
    exact .inl hboth.symm

/-! ### The first six decimals -/

/-- Zeros stand for zero. -/
theorem numberOf_zeros (n : ℕ) : numberOf 10 digit? (List.replicate n '0') = 0 :=
  numberOf_replicate rfl n

/-- The first six decimals stand for the microseconds in the fraction of a second, cut. -/
theorem numberOf_decimals (h : ∀ c ∈ fraction, isDigit c = true) :
    numberOf 10 digit? (decimals fraction) =
      numberOf 10 digit? fraction * 10 ^ 6 / 10 ^ fraction.length := by
  unfold decimals padRight
  rw [numberOf_append, numberOf_zeros, Nat.add_zero, List.length_replicate]
  rcases Nat.le_total fraction.length 6 with hshort | hlong
  · have hpower : 10 ^ 6 = 10 ^ (6 - fraction.length) * 10 ^ fraction.length := by
      rw [← pow_add, Nat.sub_add_cancel hshort]
    rw [List.take_of_length_le hshort, hpower, ← Nat.mul_assoc,
      Nat.mul_div_cancel _ (Nat.pow_pos (by decide))]
  · have hsplit : numberOf 10 digit? (fraction.take 6 ++ fraction.drop 6) =
        numberOf 10 digit? (fraction.take 6) * 10 ^ (fraction.drop 6).length +
          numberOf 10 digit? (fraction.drop 6) := numberOf_append _ _
    have hcut : numberOf 10 digit? (fraction.drop 6) < 10 ^ (fraction.drop 6).length :=
      numberOf_lt (fun _ _ => digit?_lt) fun c hc => h c (List.mem_of_mem_drop hc)
    have hpower : 10 ^ fraction.length = 10 ^ (fraction.drop 6).length * 10 ^ 6 := by
      rw [← pow_add, List.length_drop, Nat.sub_add_cancel hlong]
    rw [List.take_append_drop] at hsplit
    rw [List.length_take, Nat.min_eq_left hlong, Nat.sub_self, pow_zero, Nat.mul_one, hpower,
      Nat.mul_div_mul_right _ _ (by decide), hsplit, Nat.mul_comm,
      Nat.mul_add_div (Nat.pow_pos (by decide)), Nat.div_eq_of_lt hcut, Nat.add_zero]

/-- The whole microseconds are those of the whole seconds and of the first six decimals. -/
theorem wholeMicros_eq (h : ∀ c ∈ fraction, isDigit c = true) :
    wholeMicros whole fraction =
      numberOf 10 digit? whole * 10 ^ 6 + numberOf 10 digit? (decimals fraction) := by
  have hfraction : seconds whole fraction * 10 ^ 6 =
      ((numberOf 10 digit? fraction * 10 ^ 6 : ℕ) : ℚ) / ((10 ^ fraction.length : ℕ) : ℚ) +
        ((numberOf 10 digit? whole * 10 ^ 6 : ℕ) : ℚ) := by
    unfold seconds
    push_cast
    ring
  unfold wholeMicros
  rw [hfraction, Nat.floor_add_natCast (by positivity), Nat.floor_div_eq_div,
    numberOf_decimals h, Nat.add_comm]

/-! ### Reading -/

/-- A text that writes decimal seconds is read as the whole microseconds in them, if these fit. -/
theorem Writes.parse?_eq (h : Writes text whole fraction) :
    parse? text = (word64? (wholeMicros whole fraction)).map Stamp.mk := by
  have hdecimals : ∀ c ∈ decimals fraction, isDigit c = true := by
    intro c hc
    rcases List.mem_append.mp hc with htaken | hzero
    · exact h.fraction_digits c (List.mem_of_mem_take htaken)
    · rw [List.eq_of_mem_replicate hzero]
      rfl
  have hlength : (decimals fraction).length = 6 := by
    unfold decimals padRight
    rw [List.length_append, List.length_replicate, List.length_take]
    omega
  have hboth : ∀ c ∈ whole ++ decimals fraction, isDigit c = true := fun c hc =>
    (List.mem_append.mp hc).elim (h.whole_digits c) (hdecimals c)
  have hempty : ¬ (whole.isEmpty = true ∧ fraction.isEmpty = true) := by
    rintro ⟨hwhole, hfraction⟩
    rcases h.ne_nil with hne | hne
    · exact hne (List.isEmpty_iff.mp hwhole)
    · exact hne (List.isEmpty_iff.mp hfraction)
  have hdigits : whole.all isDigit = true ∧ fraction.all isDigit = true :=
    ⟨List.all_eq_true.mpr h.whole_digits, List.all_eq_true.mpr h.fraction_digits⟩
  unfold parse?
  rw [h.parts_eq]
  simp only
  rw [if_neg hempty, if_pos hdigits, valueFrom_eq hboth, Nat.zero_mul, Nat.zero_add,
    numberOf_append, hlength, ← wholeMicros_eq h.fraction_digits, Option.bind_some]

/-- A text that is read writes decimal seconds. -/
theorem exists_writes_of_parse? {s : Stamp} (h : parse? text = some s) :
    ∃ whole fraction, Writes text whole fraction := by
  unfold parse? at h
  cases hparts : parts (trim text.toList) with
  | mk whole fraction =>
    rw [hparts] at h
    simp only at h
    split_ifs at h with hempty hdigits
    refine ⟨whole, fraction, writes_of_parts hparts (List.all_eq_true.mp hdigits.1)
      (List.all_eq_true.mp hdigits.2) ?_⟩
    rw [List.isEmpty_iff, List.isEmpty_iff, not_and_or] at hempty
    exact hempty

/-- Where as many whole microseconds are written, the same is read. -/
theorem Writes.parse?_congr (h : Writes text whole fraction) (h' : Writes text' whole' fraction')
    (heq : wholeMicros whole fraction = wholeMicros whole' fraction') :
    parse? text = parse? text' := by
  rw [h.parse?_eq, h'.parse?_eq, heq]

/-- A text is read as a stamp exactly if it writes decimal seconds with that number of whole
microseconds, and these fit 64 bits. -/
theorem parse?_eq_some_iff {s : Stamp} :
    parse? text = some s ↔ ∃ whole fraction, Writes text whole fraction ∧
      wholeMicros whole fraction < 2 ^ 64 ∧ s.micros.toNat = wholeMicros whole fraction := by
  constructor
  · intro h
    obtain ⟨whole, fraction, hwrites⟩ := exists_writes_of_parse? h
    rw [hwrites.parse?_eq] at h
    obtain ⟨micros, hmicros, rfl⟩ := Option.map_eq_some_iff.mp h
    exact ⟨whole, fraction, hwrites, word64?_eq_some_iff.mp hmicros⟩
  · rintro ⟨whole, fraction, hwrites, hfits⟩
    rw [hwrites.parse?_eq, word64?_eq_some_iff.mpr hfits, Option.map_some]

/-- More seconds have more whole microseconds. -/
theorem wholeMicros_mono (h : seconds whole fraction ≤ seconds whole' fraction') :
    wholeMicros whole fraction ≤ wholeMicros whole' fraction' :=
  Nat.floor_mono (mul_le_mul_of_nonneg_right h (by positivity))

/-- Zeros in front of the seconds and behind the decimals count for nothing. -/
theorem seconds_zeros (front back : ℕ) (whole fraction : List Char) :
    seconds (List.replicate front '0' ++ whole) (fraction ++ List.replicate back '0') =
      seconds whole fraction := by
  unfold seconds
  rw [numberOf_append, numberOf_append, numberOf_zeros, numberOf_zeros, List.length_append,
    List.length_replicate, Nat.zero_mul, Nat.zero_add, Nat.add_zero, pow_add]
  push_cast
  rw [mul_div_mul_right _ _ (by positivity)]

/-- Of the decimals the first six count. -/
theorem wholeMicros_of_take_eq (h : ∀ c ∈ fraction, isDigit c = true)
    (h' : ∀ c ∈ fraction', isDigit c = true) (hsix : fraction.take 6 = fraction'.take 6) :
    wholeMicros whole fraction = wholeMicros whole fraction' := by
  rw [wholeMicros_eq h, wholeMicros_eq h']
  unfold decimals
  rw [hsix]

/-- Stamps are exact. A text is read as a stamp exactly if, blanks around it apart, it writes
decimal seconds and the whole microseconds in them are fewer than 2^64; then the stamp is their
number. So of two texts the one that writes fewer seconds is read if the other one is, and as no
later stamp; and zeros in front of the seconds, zeros behind the decimals and all decimals behind
the sixth make no difference. -/
theorem stamps_are_exact :
    (∀ text s, parse? text = some s ↔ ∃ whole fraction, Writes text whole fraction ∧
      ⌊seconds whole fraction * 10 ^ 6⌋₊ < 2 ^ 64 ∧
      s.micros.toNat = ⌊seconds whole fraction * 10 ^ 6⌋₊) ∧
    (∀ {text text' whole fraction whole' fraction'}, Writes text whole fraction →
      Writes text' whole' fraction' → seconds whole fraction ≤ seconds whole' fraction' →
      ∀ s' ∈ parse? text', ∃ s ∈ parse? text, s.micros ≤ s'.micros) ∧
    (∀ {text text' whole fraction} (front back : ℕ), Writes text whole fraction →
      Writes text' (List.replicate front '0' ++ whole) (fraction ++ List.replicate back '0') →
      parse? text' = parse? text) ∧
    ∀ {text text' whole fraction fraction'}, Writes text whole fraction →
      Writes text' whole fraction' → fraction.take 6 = fraction'.take 6 →
      parse? text' = parse? text := by
  refine ⟨fun text s => parse?_eq_some_iff, ?_, ?_, ?_⟩
  · intro text text' whole fraction whole' fraction' h h' hle s' hs'
    rw [h'.parse?_eq] at hs'
    obtain ⟨micros', hmicros', rfl⟩ := Option.map_eq_some_iff.mp hs'
    obtain ⟨micros, hmicros, hle'⟩ := exists_word64?_of_le (wholeMicros_mono hle) hmicros'
    refine ⟨⟨micros⟩, ?_, hle'⟩
    rw [h.parse?_eq, hmicros]
    rfl
  · intro text text' whole fraction front back h h'
    apply h'.parse?_congr h
    unfold wholeMicros
    rw [seconds_zeros]
  · intro text text' whole fraction fraction' h h' hsix
    apply h'.parse?_congr h
    exact wholeMicros_of_take_eq h'.fraction_digits h.fraction_digits hsix.symm

/-- So a text with zeros in front, blanks around it and a late decimal is read as the same stamp as
the text without them, and as no earlier one than a text with fewer seconds. -/
theorem padded_stamp_is_exact :
    parse? " 0012.3456789\n" = parse? "12.345678" ∧
      ∀ s' ∈ parse? "12.345678", ∃ s ∈ parse? ".5", s.micros ≤ s'.micros := by
  have hdigits : ∀ cs : List Char, cs.all isDigit = true → ∀ c ∈ cs, isDigit c = true :=
    fun _ => List.all_eq_true.mp
  have hplain : Writes "12.345678" ['1', '2'] ['3', '4', '5', '6', '7', '8'] :=
    ⟨.inl (by decide), hdigits _ rfl, hdigits _ rfl, by decide⟩
  have hlate : Writes "12.3456789" ['1', '2'] ['3', '4', '5', '6', '7', '8', '9'] :=
    ⟨.inl (by decide), hdigits _ rfl, hdigits _ rfl, by decide⟩
  have hpadded : Writes " 0012.3456789\n" ['0', '0', '1', '2']
      ['3', '4', '5', '6', '7', '8', '9'] :=
    ⟨.inl (by decide), hdigits _ rfl, hdigits _ rfl, by decide⟩
  have hhalf : Writes ".5" [] ['5'] :=
    ⟨.inl (by decide), hdigits _ rfl, hdigits _ rfl, by decide⟩
  have hle : seconds [] ['5'] ≤ seconds ['1', '2'] ['3', '4', '5', '6', '7', '8'] := by
    decide +kernel
  obtain ⟨-, hmono, hzeros, hsix⟩ := stamps_are_exact
  exact ⟨(hzeros 2 0 hlate hpadded).trans (hsix hplain hlate rfl), hmono hhalf hplain hle⟩

end Stamp

end CompileLog

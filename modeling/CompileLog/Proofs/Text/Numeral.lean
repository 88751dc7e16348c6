import CompileLog.Text.Numeral
import Mathlib.Data.Nat.Digits.Defs
import Mathlib.Tactic.Ring
import Mathlib.Tactic.SplitIfs

/-!
# Reading back numerals

Digits of a base are read as the number that they stand for. A number in base ten is written with
decimal digits only, without a leading zero, and its digits are read as it.
-/

namespace CompileLog.Text

/-! ### Digits -/

/-- The digit of a value below ten is read as it. -/
theorem digit?_digitChar : ∀ {d : Nat}, d < 10 → digit? (digitChar d) = some d := by
  decide

/-- The digit of a value below sixteen is read as it. -/
theorem hexDigit?_digitChar : ∀ {d : Nat}, d < 16 → hexDigit? (digitChar d) = some d := by
  decide

/-- Only zero is written as a zero. -/
theorem digitChar_ne_zero : ∀ {d : Nat}, d < 10 → d ≠ 0 → digitChar d ≠ '0' := by
  decide

/-- The value of digits behind others goes on from the value of those. -/
theorem valueFrom_append (base : Nat) (read : Char → Option Nat) (acc : Nat)
    (front back : List Char) :
    valueFrom base read acc (front ++ back) =
      (valueFrom base read acc front).bind fun value => valueFrom base read value back := by
  induction front generalizing acc with
  | nil => rfl
  | cons c rest ih =>
    rw [List.cons_append, valueFrom, valueFrom]
    cases read c with
    | none => rfl
    | some d => exact ih _

/-! ### What digits stand for -/

/-- The number that digits stand for in a base, the first being the most significant. -/
def numberOf (base : Nat) (read : Char → Option Nat) (digits : List Char) : Nat :=
  Nat.ofDigits base (digits.reverse.map fun c => (read c).getD 0)

section

variable {base : Nat} {read : Char → Option Nat}

/-- One digit in front of others counts a power of the base. -/
theorem numberOf_cons (c : Char) (rest : List Char) :
    numberOf base read (c :: rest) =
      (read c).getD 0 * base ^ rest.length + numberOf base read rest := by
  unfold numberOf
  rw [List.reverse_cons, List.map_append, Nat.ofDigits_append, List.length_map,
    List.length_reverse, List.map_singleton, Nat.ofDigits_singleton]
  ring

/-- Digits in front of others count a power of the base. By induction on the digits in front. -/
theorem numberOf_append (front back : List Char) :
    numberOf base read (front ++ back) =
      numberOf base read front * base ^ back.length + numberOf base read back := by
  induction front with
  | nil => simp [numberOf]
  | cons c rest ih =>
    rw [List.cons_append, numberOf_cons, numberOf_cons, ih, List.length_append, pow_add]
    ring

/-- Zeros alone stand for zero. By induction on their number. -/
theorem numberOf_replicate {zero : Char} (hzero : read zero = some 0) (n : Nat) :
    numberOf base read (List.replicate n zero) = 0 := by
  induction n with
  | zero => rfl
  | succ n ih => rw [List.replicate_succ, numberOf_cons, ih, hzero, Option.getD_some, Nat.zero_mul]

/-- Digits stand for less than the power of the base that follows theirs. By induction on the
digits. -/
theorem numberOf_lt (hread : ∀ c d, read c = some d → d < base) {digits : List Char}
    (hdigits : ∀ c ∈ digits, (read c).isSome = true) :
    numberOf base read digits < base ^ digits.length := by
  induction digits with
  | nil => simp [numberOf]
  | cons c rest ih =>
    obtain ⟨hc, hrest⟩ := List.forall_mem_cons.mp hdigits
    obtain ⟨d, hd⟩ := Option.isSome_iff_exists.mp hc
    have hlt := ih hrest
    have hone : d + 1 ≤ base := hread c d hd
    rw [numberOf_cons, hd, Option.getD_some, List.length_cons]
    calc d * base ^ rest.length + numberOf base read rest
        < d * base ^ rest.length + base ^ rest.length := Nat.add_lt_add_left hlt _
      _ = (d + 1) * base ^ rest.length := by ring
      _ ≤ base * base ^ rest.length := Nat.mul_le_mul_right _ hone
      _ = base ^ (rest.length + 1) := by ring

/-- Digits are read as the number that they stand for, behind a number that has been read. By
induction on the digits. -/
theorem valueFrom_eq {digits : List Char} (hdigits : ∀ c ∈ digits, (read c).isSome = true)
    (acc : Nat) :
    valueFrom base read acc digits =
      some (acc * base ^ digits.length + numberOf base read digits) := by
  induction digits generalizing acc with
  | nil => simp [valueFrom, numberOf]
  | cons c rest ih =>
    obtain ⟨hc, hrest⟩ := List.forall_mem_cons.mp hdigits
    obtain ⟨d, hd⟩ := Option.isSome_iff_exists.mp hc
    rw [valueFrom, hd]
    simp only
    rw [ih hrest, numberOf_cons, hd, Option.getD_some, List.length_cons]
    congr 1
    ring

end

/-- A decimal digit stands for less than ten. -/
theorem digit?_lt {c : Char} {d : Nat} (h : digit? c = some d) : d < 10 := by
  unfold digit? at h
  split at h
  · next hrange =>
    have hnine : c.toNat ≤ 57 := hrange.2
    have hvalue : c.toNat - 48 = d := Option.some.inj h
    omega
  · cases h

/-- Hexadecimal digits, one or more of them, are read as the number that they stand for. -/
theorem hexDigits?_eq {digits : List Char} (hne : digits ≠ [])
    (hdigits : ∀ c ∈ digits, isHexDigit c = true) :
    hexDigits? digits = some (numberOf 16 hexDigit? digits) := by
  rw [hexDigits?, if_neg (by simpa using hne), valueFrom_eq hdigits, Nat.zero_mul, Nat.zero_add]

/-- A number fits 64 bits as the word that has its value, exactly if it is less than their power
of two. -/
theorem word64?_eq_some_iff {n : Nat} {w : UInt64} :
    word64? n = some w ↔ n < 2 ^ 64 ∧ w.toNat = n := by
  unfold word64?
  constructor
  · intro h
    split at h
    · next hlt =>
      obtain rfl := Option.some.inj h
      exact ⟨hlt, UInt64.toNat_ofNat_of_lt hlt⟩
    · cases h
  · rintro ⟨-, rfl⟩
    rw [if_pos w.toNat_lt_size, UInt64.ofNat_toNat]

/-- Where a number fits 64 bits, no greater one does so as a smaller word. -/
theorem exists_word64?_of_le {n n' : Nat} (hle : n ≤ n') {w' : UInt64}
    (h : word64? n' = some w') : ∃ w, word64? n = some w ∧ w ≤ w' := by
  obtain ⟨hfits, hvalue⟩ := word64?_eq_some_iff.mp h
  have hfits' : n < 2 ^ 64 := by omega
  have hvalue' : (UInt64.ofNat n).toNat = n := UInt64.toNat_ofNat_of_lt hfits'
  refine ⟨UInt64.ofNat n, word64?_eq_some_iff.mpr ⟨hfits', hvalue'⟩, ?_⟩
  rw [UInt64.le_iff_toNat_le, hvalue', hvalue]
  exact hle

/-! ### Numbers in base ten -/

/-- The digits of a number stand in front of what follows them. -/
theorem writeFrom_append (base n : Nat) (after more : List Char) :
    writeFrom base n (after ++ more) = writeFrom base n after ++ more := by
  induction n, after using writeFrom.induct base with
  | case1 n after h => rw [writeFrom, dif_pos h, writeFrom, dif_pos h, List.cons_append]
  | case2 n after h ih =>
    have hstep : ∀ after, writeFrom base n after =
        writeFrom base (n / base) (digitChar (n % base) :: after) := fun after => by
      rw [writeFrom, dif_neg h]
    rw [hstep, hstep, ← List.cons_append, ih]

/-- A number below ten is one digit. -/
theorem decimal_of_lt {n : Nat} (h : n < 10) : decimal n = [digitChar n] := by
  rw [decimal, writeFrom, dif_pos (.inr h), Nat.mod_eq_of_lt h]

/-- A greater number is a digit behind a tenth of it. -/
theorem decimal_of_le {n : Nat} (h : 10 ≤ n) :
    decimal n = decimal (n / 10) ++ [digitChar (n % 10)] := by
  rw [decimal, writeFrom, dif_neg (by omega), decimal, ← writeFrom_append, List.nil_append]

/-- A number in base ten is written with decimal digits. By induction on a tenth of it. -/
theorem isDigit_of_mem_decimal {n : Nat} : ∀ c ∈ decimal n, isDigit c = true := by
  induction n using Nat.strongRecOn with
  | ind n ih =>
    have hdigit : ∀ d < 10, isDigit (digitChar d) = true := fun d hd => by
      rw [isDigit, digit?_digitChar hd, Option.isSome_some]
    intro c hc
    by_cases hsmall : n < 10
    · rw [decimal_of_lt hsmall, List.mem_singleton] at hc
      rw [hc]
      exact hdigit n hsmall
    · rw [decimal_of_le (by omega), List.mem_append, List.mem_singleton] at hc
      rcases hc with hc | rfl
      · exact ih (n / 10) (by omega) c hc
      · exact hdigit _ (Nat.mod_lt n (by decide))

/-- A number in base ten has a digit, and none but zero starts with a zero. By induction on a tenth
of it. -/
theorem decimal_eq_cons (n : Nat) : ∃ c rest, decimal n = c :: rest ∧ (n ≠ 0 → c ≠ '0') := by
  induction n using Nat.strongRecOn with
  | ind n ih =>
    by_cases hsmall : n < 10
    · exact ⟨_, _, decimal_of_lt hsmall, digitChar_ne_zero hsmall⟩
    · obtain ⟨c, rest, hfront, hc⟩ := ih (n / 10) (by omega)
      refine ⟨c, rest ++ [digitChar (n % 10)], ?_, fun _ => hc (by omega)⟩
      rw [decimal_of_le (by omega), hfront, List.cons_append]

/-- The digits of a number in base ten have its value. By induction on a tenth of it. -/
theorem valueFrom_decimal (n : Nat) : valueFrom 10 digit? 0 (decimal n) = some n := by
  induction n using Nat.strongRecOn with
  | ind n ih =>
    by_cases hsmall : n < 10
    · rw [decimal_of_lt hsmall, valueFrom, digit?_digitChar hsmall]
      simp [valueFrom]
    · have htenth : 10 * (n / 10) + n % 10 = n := Nat.div_add_mod n 10
      rw [decimal_of_le (by omega), valueFrom_append, ih (n / 10) (by omega), Option.bind_some,
        valueFrom, digit?_digitChar (Nat.mod_lt n (by decide))]
      simp only [valueFrom, Nat.mul_comm (n / 10) 10, htenth]

/-- A number in base ten is read as it. -/
theorem digits?_decimal (n : Nat) : digits? (decimal n) = some n := by
  obtain ⟨c, rest, hn, _⟩ := decimal_eq_cons n
  rw [digits?, if_neg (by rw [hn]; exact Bool.false_ne_true), valueFrom_decimal]

/-- A number in base ten starts with a digit, so with no sign. -/
theorem exists_digit_decimal (n : Nat) : ∃ c rest, decimal n = c :: rest ∧ isDigit c = true := by
  obtain ⟨c, rest, hn, _⟩ := decimal_eq_cons n
  refine ⟨c, rest, hn, isDigit_of_mem_decimal (n := n) c ?_⟩
  rw [hn]
  exact List.mem_cons_self

/-- A number in base ten is read as it where a plus sign may stand in front of it. -/
theorem natural?_decimal (n : Nat) : natural? (decimal n) = some n := by
  have hdigits := digits?_decimal n
  obtain ⟨c, rest, hn, hdigit⟩ := exists_digit_decimal n
  rw [hn] at hdigits ⊢
  unfold natural?
  split
  · next heq =>
    obtain ⟨rfl, _⟩ := List.cons.inj heq
    cases hdigit
  · exact hdigits

/-- An integer in base ten is written with digits and the minus sign. -/
theorem mem_signedDecimal {i : Int} {c : Char} (h : c ∈ signedDecimal i) :
    c = '-' ∨ isDigit c = true := by
  unfold signedDecimal at h
  split_ifs at h
  · exact (List.mem_cons.mp h).imp_right (isDigit_of_mem_decimal c)
  · exact .inr (isDigit_of_mem_decimal c h)

/-- An integer in base ten is read as it. -/
theorem integer?_signedDecimal (i : Int) : integer? (signedDecimal i) = some i := by
  unfold signedDecimal
  split_ifs with hnegative
  · rw [integer?, digits?_decimal]
    show some (-(i.natAbs : Int)) = some i
    congr 1
    omega
  · have hnatural := natural?_decimal i.natAbs
    obtain ⟨c, rest, hn, hdigit⟩ := exists_digit_decimal i.natAbs
    rw [hn] at hnatural ⊢
    unfold integer?
    split
    · next heq =>
      obtain ⟨rfl, _⟩ := List.cons.inj heq
      cases hdigit
    · rw [hnatural, Option.map_some]
      congr 1
      exact Int.natAbs_of_nonneg (by omega)

/-! ### Words -/

/-- A number of 32 bits fits them. -/
theorem word32?_toNat (n : UInt32) : word32? n.toNat = some n := by
  unfold word32?
  rw [if_pos n.toNat_lt_size, UInt32.ofNat_toNat]

/-- So does an integer of 32 bits. -/
theorem signed32?_toInt (i : Int32) : signed32? i.toInt = some i := by
  have hlow := i.le_toInt
  have hhigh := i.toInt_lt
  unfold signed32? signBound32
  rw [if_pos ⟨by omega, by omega⟩, Int32.ofInt_toInt]

end CompileLog.Text

import CompileLog.Text.Blank

/-!
# Numerals

Reading and writing whole numbers in base ten and sixteen. The readers take ASCII
digits only and at least one of them; a sign is read only where the reader says so.
What does not fit the asked width is not a numeral of that width.
-/

namespace CompileLog.Text

/-- The value of an ASCII decimal digit. -/
def digit? (c : Char) : Option Nat :=
  if '0' ≤ c ∧ c ≤ '9' then some (c.toNat - 48) else none

/-- The value of an ASCII hexadecimal digit, of either case. -/
def hexDigit? (c : Char) : Option Nat :=
  if '0' ≤ c ∧ c ≤ '9' then some (c.toNat - 48)
  else if 'a' ≤ c ∧ c ≤ 'f' then some (c.toNat - 87)
  else if 'A' ≤ c ∧ c ≤ 'F' then some (c.toNat - 55)
  else none

/-- An ASCII decimal digit. -/
def isDigit (c : Char) : Bool := (digit? c).isSome

/-- An ASCII hexadecimal digit. -/
def isHexDigit (c : Char) : Bool := (hexDigit? c).isSome

/-- The value of a run of digits after `acc`, most significant first. -/
def valueFrom (base : Nat) (read : Char → Option Nat) (acc : Nat) : List Char → Option Nat
  | [] => some acc
  | c :: rest =>
    match read c with
    | some d => valueFrom base read (acc * base + d) rest
    | none => none

/-- One or more decimal digits. -/
def digits? (cs : List Char) : Option Nat :=
  if cs.isEmpty then none else valueFrom 10 digit? 0 cs

/-- One or more hexadecimal digits. -/
def hexDigits? (cs : List Char) : Option Nat :=
  if cs.isEmpty then none else valueFrom 16 hexDigit? 0 cs

/-- Decimal digits after an optional plus sign. -/
def natural? : List Char → Option Nat
  | '+' :: rest => digits? rest
  | cs => digits? cs

/-- Hexadecimal digits after an optional plus sign. -/
def hexNatural? : List Char → Option Nat
  | '+' :: rest => hexDigits? rest
  | cs => hexDigits? cs

/-- Decimal digits after an optional sign. -/
def integer? : List Char → Option Int
  | '-' :: rest => (digits? rest).map fun n => - (n : Int)
  | cs => (natural? cs).map Int.ofNat

/-- A number that fits 8 bits. -/
def word8? (n : Nat) : Option UInt8 :=
  if n < UInt8.size then some (UInt8.ofNat n) else none

/-- A number that fits 32 bits. -/
def word32? (n : Nat) : Option UInt32 :=
  if n < UInt32.size then some (UInt32.ofNat n) else none

/-- A number that fits 64 bits. -/
def word64? (n : Nat) : Option UInt64 :=
  if n < UInt64.size then some (UInt64.ofNat n) else none

/-- A signed number of 32 bits lies below 2^31 and not below its negative. -/
def signBound32 : Nat := 2147483648

/-- A signed number of 64 bits lies below 2^63 and not below its negative. -/
def signBound64 : Nat := 9223372036854775808

/-- An integer within the signed 32-bit range. -/
def signed32? (i : Int) : Option Int32 :=
  if -(signBound32 : Int) ≤ i ∧ i < signBound32 then some (Int32.ofInt i) else none

/-- An integer within the signed 64-bit range. -/
def signed64? (i : Int) : Option Int64 :=
  if -(signBound64 : Int) ≤ i ∧ i < signBound64 then some (Int64.ofInt i) else none

/-- The digit of a value below sixteen, in lower case. -/
def digitChar (d : Nat) : Char :=
  if d < 10 then Char.ofNat (48 + d) else Char.ofNat (87 + d)

/-- The digits of a number in a base of at least two, put in front of `after`. -/
def writeFrom (base n : Nat) (after : List Char) : List Char :=
  if _h : base < 2 ∨ n < base then digitChar (n % base) :: after
  else writeFrom base (n / base) (digitChar (n % base) :: after)
termination_by n
decreasing_by exact Nat.div_lt_self (by omega) (by omega)

/-- A number in base ten, without leading zeros. -/
def decimal (n : Nat) : List Char := writeFrom 10 n []

/-- A number in base sixteen, in lower case and without leading zeros. -/
def hexadecimal (n : Nat) : List Char := writeFrom 16 n []

/-- An integer in base ten, with a minus sign if it is negative. -/
def signedDecimal (i : Int) : List Char :=
  if i < 0 then '-' :: decimal i.natAbs else decimal i.natAbs

/-- `cs` filled up on the left with `fill` to at least `width` characters. -/
def padLeft (fill : Char) (width : Nat) (cs : List Char) : List Char :=
  List.replicate (width - cs.length) fill ++ cs

/-- `cs` filled up on the right with `fill` to at least `width` characters. -/
def padRight (fill : Char) (width : Nat) (cs : List Char) : List Char :=
  cs ++ List.replicate (width - cs.length) fill

end CompileLog.Text

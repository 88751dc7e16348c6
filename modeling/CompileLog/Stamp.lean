import CompileLog.Text.Numeral

/-!
# Time stamps

A stamp counts microseconds since the virtual machine started. Logs write it as decimal
seconds. It is read digit by digit, so equal texts give equal stamps, and digits past
the sixth decimal are dropped.
-/

namespace CompileLog

open Text

/-- Microseconds since the virtual machine started. -/
structure Stamp where
  micros : UInt64
  deriving DecidableEq, Repr, Inhabited

namespace Stamp

/-- The text before the decimal point and the text after it. -/
def parts (cs : List Char) : List Char × List Char :=
  (splitAt? '.' cs).getD (cs, [])

/-- The first six decimals, filled up with zeros. -/
def decimals (fraction : List Char) : List Char :=
  padRight '0' 6 (fraction.take 6)

/-- Reads decimal seconds: digits, a point and digits, where one of the two runs may be
empty. A value of 2^64 microseconds or more is refused. -/
def parse? (text : String) : Option Stamp :=
  let (whole, fraction) := parts (trim text.toList)
  if whole.isEmpty ∧ fraction.isEmpty then none
  else if whole.all isDigit ∧ fraction.all isDigit then
    ((valueFrom 10 digit? 0 (whole ++ decimals fraction)).bind word64?).map Stamp.mk
  else none

/-- Microseconds since an earlier stamp, zero if it is not earlier. -/
def since (later earlier : Stamp) : Nat :=
  later.micros.toNat - earlier.micros.toNat

/-- Seconds with three decimals, cut and not rounded. -/
def display (s : Stamp) : List Char :=
  decimal (s.micros.toNat / 1000000) ++ '.' ::
    padLeft '0' 3 (decimal (s.micros.toNat % 1000000 / 1000)) ++ ['s']

end Stamp

end CompileLog

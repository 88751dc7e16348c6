import CompileLog.Text.Numeral

/-!
# Numbers, dates and truth values of TOML

What is written without quotes and brackets stands in one run of characters, which is a
truth value, an integer, a real number, or a point in time. Digits may be grouped by single
underscores between them. Integers have 64 bits and a sign.
-/

namespace CompileLog.Toml

open Text

/-- What is written without quotes and brackets. -/
inductive Scalar where
  /-- A truth value. -/
  | boolean (b : Bool)
  /-- An integer. -/
  | integer (i : Int)
  /-- A real number. -/
  | real
  /-- A date, a time, or both. -/
  | moment
  deriving DecidableEq

/-- Digits without the underscores between them. -/
def ungroup? (isDigitHere : Char → Bool) (cs : List Char) : Option (List Char) :=
  let groups := splitOn '_' cs
  if groups.all fun g => !g.isEmpty && g.all isDigitHere then some groups.flatten else none

/-- A number of a base whose digits are given. -/
def naturalIn? (base : Nat) (value : Char → Option Nat) (cs : List Char) : Option Nat :=
  (ungroup? (fun c => (value c).isSome) cs).bind (valueFrom base value 0)

/-- A digit below a base. -/
def digitBelow? (base : Nat) (c : Char) : Option Nat := (digit? c).filter (· < base)

/-- A decimal number without leading zeros. -/
def plainDecimal? (cs : List Char) : Option Nat :=
  if 1 < cs.length ∧ cs.head? = some '0' then none else naturalIn? 10 digit? cs

/-- The characters after a sign, and whether it is a minus. -/
def sign : List Char → Bool × List Char
  | '-' :: rest => (true, rest)
  | '+' :: rest => (false, rest)
  | cs => (false, cs)

/-- An integer: decimal with an optional sign, else in base sixteen, eight or two without. -/
def integer? (cs : List Char) : Option Int :=
  let read : Option Int :=
    match cs with
    | '0' :: 'x' :: rest => (naturalIn? 16 hexDigit? rest).map Int.ofNat
    | '0' :: 'o' :: rest => (naturalIn? 8 (digitBelow? 8) rest).map Int.ofNat
    | '0' :: 'b' :: rest => (naturalIn? 2 (digitBelow? 2) rest).map Int.ofNat
    | cs =>
      let (negative, rest) := sign cs
      (plainDecimal? rest).map fun n => if negative then -(n : Int) else n
  read.filter fun i => decide (-(Text.signBound64 : Int) ≤ i ∧ i < Text.signBound64)

/-- The text before an exponent and the exponent. -/
def splitExponent (cs : List Char) : List Char × Option (List Char) :=
  match cs.dropWhile fun c => c ≠ 'e' ∧ c ≠ 'E' with
  | [] => (cs, none)
  | _ :: exponent => (cs.takeWhile fun c => c ≠ 'e' ∧ c ≠ 'E', some exponent)

/-- The value of an exponent. -/
def exponent? (cs : List Char) : Option Int :=
  let (negative, rest) := sign cs
  (naturalIn? 10 digit? rest).map fun n => if negative then -(n : Int) else n

/-- The digits of a real number without sign, and the power of ten that the last of them counts.
A point, an exponent or both tell it from an integer. -/
def decimals? (cs : List Char) : Option (List Char × Int) := do
  let (mantissa, exponent) := splitExponent cs
  match splitAt? '.' mantissa with
  | some (whole, fraction) =>
    let power ← exponent.elim (some 0) exponent?
    let _ ← plainDecimal? whole
    let fraction ← ungroup? isDigit fraction
    return (whole.filter isDigit ++ fraction, power - fraction.length)
  | none =>
    let power ← exponent.bind exponent?
    let _ ← plainDecimal? mantissa
    return (mantissa.filter isDigit, power)

/-- What is too great for a real number of 64 bits. The greatest of them is 2^1024 - 2^971, and
from halfway between it and 2^1024 on a number is no longer rounded to it. -/
def realLimit : Nat := Nat.pow 2 1024 - Nat.pow 2 970

/-- Whether digits reach the limit of real numbers, if the last of them counts this power of
ten. The limit has 309 digits, so only numbers of that size are compared in full. -/
def isTooGreat (digits : List Char) (power : Int) : Bool :=
  let significant := digits.dropWhile (· = '0')
  let size := significant.length + power
  if significant.isEmpty ∨ size < 309 then false
  else if 309 < size then true
  else realLimit * Nat.pow 10 (-power).toNat ≤
    (valueFrom 10 digit? 0 significant).getD 0 * Nat.pow 10 power.toNat

/-- Whether the text is a real number: decimals, or a special value. Numbers that are too great
are refused, while one too far below zero counts as infinite. -/
def isReal (cs : List Char) : Bool :=
  let (negative, unsigned) := sign cs
  if unsigned = "inf".toList ∨ unsigned = "nan".toList then true
  else (decimals? unsigned).any fun (digits, power) => negative || !isTooGreat digits power

/-- A number of exactly so many digits within a range. -/
def field? (width first last : Nat) (cs : List Char) : Option Nat :=
  if cs.length = width then (digits? cs).filter fun n => first ≤ n && n ≤ last else none

/-- The number of days of a month. -/
def daysOf (year month : Nat) : Nat :=
  if month = 2 then
    if (year % 4 = 0 ∧ year % 100 ≠ 0) ∨ year % 400 = 0 then 29 else 28
  else if month ∈ [4, 6, 9, 11] then 30
  else 31

/-- Whether the text is a date. -/
def isDate (cs : List Char) : Bool :=
  match splitOn '-' cs with
  | [year, month, day] =>
    match field? 4 0 9999 year, field? 2 1 12 month with
    | some y, some m => (field? 2 1 (daysOf y m) day).isSome
    | _, _ => false
  | _ => false

/-- Whether the text is a time of day. -/
def isTime (cs : List Char) : Bool :=
  let (clock, fraction) := (splitAt? '.' cs).getD (cs, ['0'])
  match splitOn ':' clock with
  | [hour, minute, second] =>
    (field? 2 0 23 hour).isSome && (field? 2 0 59 minute).isSome &&
      (field? 2 0 60 second).isSome && !fraction.isEmpty && fraction.all isDigit
  | _ => false

/-- Whether the text is a distance from universal time, behind its sign. -/
def isOffset (cs : List Char) : Bool :=
  match splitOn ':' cs with
  | [hour, minute] => (field? 2 0 23 hour).isSome && (field? 2 0 59 minute).isSome
  | _ => false

/-- Whether the text is a time of day, with a distance from universal time or without. -/
def isZonedTime (cs : List Char) : Bool :=
  match splitAt? '+' cs, splitAt? '-' cs with
  | some (time, offset), _ => isTime time && isOffset offset
  | none, some (time, offset) => isTime time && isOffset offset
  | none, none =>
    if cs.getLast? = some 'Z' ∨ cs.getLast? = some 'z' then isTime cs.dropLast else isTime cs

/-- Whether the text is a date, a time, or a date and a time with a letter between them. -/
def isMoment (cs : List Char) : Bool :=
  isTime cs || isDate cs ||
    (isDate (cs.take 10) &&
      match cs.drop 10 with
      | mark :: time => (mark = 'T' || mark = 't') && isZonedTime time
      | [] => false)

/-- A character of a number, a date or a truth value. -/
def isScalarChar (c : Char) : Bool :=
  ('a' ≤ c && c ≤ 'z') || ('A' ≤ c && c ≤ 'Z') || isDigit c ||
    c == '+' || c == '-' || c == '_' || c == '.' || c == ':'

/-- What a run of characters says. -/
def ofRun? (run : List Char) : Option Scalar :=
  if run = "true".toList then some (.boolean true)
  else if run = "false".toList then some (.boolean false)
  else if isMoment run then some .moment
  else if isReal run then some .real
  else (integer? run).map .integer

/-- The characters after a time of day that stands behind a blank. -/
def afterSpacedTime? : List Char → Option (List Char)
  | ' ' :: rest =>
    if isZonedTime (rest.takeWhile isScalarChar) then some (rest.dropWhile isScalarChar) else none
  | _ => none

/-- A truth value, a number or a point in time. A date may be followed by a blank and a time. -/
def scalar (cs : List Char) : Option (Scalar × List Char) :=
  let run := cs.takeWhile isScalarChar
  let rest := cs.dropWhile isScalarChar
  match if isDate run then afterSpacedTime? rest else none with
  | some after => some (.moment, after)
  | none => (ofRun? run).map fun s => (s, rest)

end CompileLog.Toml

/-!
# Reading UTF-8 that may be broken

A log is a byte stream cut at any point, so names and texts can hold bytes that are
no UTF-8. `characters` tells each maximal start of a character that breaks off, and each
byte that starts none, from the characters around it. `decode?` accepts well-formed text
only; `decodeLossy` always answers, with one replacement character for each broken part.
-/

namespace CompileLog.Text.Utf8

/-- A continuation byte, `10xxxxxx`. -/
def isContinuation (b : UInt8) : Bool := 0x80 ≤ b && b ≤ 0xBF

/-- The six payload bits of a continuation byte. -/
def payload (b : UInt8) : Nat := b.toNat % 64

/-- Which bytes may follow a lead byte of a three-byte form. The narrower ranges keep
out overlong forms and surrogates. -/
def mayFollowThree (lead b : UInt8) : Bool :=
  if lead == 0xE0 then 0xA0 ≤ b && b ≤ 0xBF
  else if lead == 0xED then 0x80 ≤ b && b ≤ 0x9F
  else isContinuation b

/-- Which bytes may follow a lead byte of a four-byte form. The narrower ranges keep
out overlong forms and values past the last code point. -/
def mayFollowFour (lead b : UInt8) : Bool :=
  if lead == 0xF0 then 0x90 ≤ b && b ≤ 0xBF
  else if lead == 0xF4 then 0x80 ≤ b && b ≤ 0x8F
  else isContinuation b

/-- The rest of a two-byte form. -/
def two (lead : UInt8) : List UInt8 → Option Char × List UInt8
  | b :: rest =>
    if isContinuation b then (some (Char.ofNat (lead.toNat % 32 * 64 + payload b)), rest)
    else (none, b :: rest)
  | [] => (none, [])

/-- The rest of a three-byte form. -/
def three (lead : UInt8) : List UInt8 → Option Char × List UInt8
  | b :: rest =>
    if mayFollowThree lead b then
      match rest with
      | c :: after =>
        if isContinuation c then
          (some (Char.ofNat ((lead.toNat % 16 * 64 + payload b) * 64 + payload c)), after)
        else (none, rest)
      | [] => (none, [])
    else (none, b :: rest)
  | [] => (none, [])

/-- The rest of a four-byte form. -/
def four (lead : UInt8) : List UInt8 → Option Char × List UInt8
  | b :: rest =>
    if mayFollowFour lead b then
      match rest with
      | c :: rest' =>
        if isContinuation c then
          match rest' with
          | d :: after =>
            if isContinuation d then
              (some (Char.ofNat
                (((lead.toNat % 8 * 64 + payload b) * 64 + payload c) * 64 + payload d)), after)
            else (none, rest')
          | [] => (none, [])
        else (none, rest)
      | [] => (none, [])
    else (none, b :: rest)
  | [] => (none, [])

/-- The character that starts with `lead`, or `none` where it breaks off, and the bytes
after it. -/
def next (lead : UInt8) (rest : List UInt8) : Option Char × List UInt8 :=
  if lead < 0x80 then (some (Char.ofNat lead.toNat), rest)
  else if 0xC2 ≤ lead && lead ≤ 0xDF then two lead rest
  else if 0xE0 ≤ lead && lead ≤ 0xEF then three lead rest
  else if 0xF0 ≤ lead && lead ≤ 0xF4 then four lead rest
  else (none, rest)

/-- Reading one character leaves no more than what followed its first byte. -/
theorem length_next_le (lead : UInt8) (rest : List UInt8) :
    (next lead rest).2.length ≤ rest.length := by
  unfold next
  repeat' split
  · exact Nat.le_refl _
  · unfold two
    split <;> (try split) <;> simp
  · unfold three
    repeat' split
    all_goals simp_all
    all_goals omega
  · unfold four
    repeat' split
    all_goals simp_all
    all_goals omega
  · exact Nat.le_refl _

/-- The characters of a byte sequence, with `none` for each part that is no UTF-8. -/
def characters (bytes : List UInt8) : List (Option Char) :=
  match bytes with
  | [] => []
  | lead :: rest => (next lead rest).1 :: characters (next lead rest).2
termination_by bytes.length
decreasing_by
  have := length_next_le lead rest
  simp only [List.length_cons]
  omega

/-- The replacement character. -/
def replacement : Char := '\uFFFD'

/-- The characters of a byte sequence, with one replacement character for each part
that is no UTF-8. -/
def decodeLossy (bytes : List UInt8) : List Char :=
  (characters bytes).map fun c => c.getD replacement

/-- The characters of a byte sequence that is UTF-8 throughout. -/
def decode? (bytes : List UInt8) : Option (List Char) := (characters bytes).mapM id

/-- The bytes of a text. -/
def encode (text : String) : List UInt8 :=
  text.toUTF8.toList

end CompileLog.Text.Utf8

import CompileLog.Text.Numeral
import CompileLog.Text.Utf8

/-!
# Character references

In attribute values and texts a character may be written as a reference: `&lt;`, `&#60;`
or `&#x3c;`. A raw value with one faulty reference, or with bytes that are no UTF-8, is
taken as it stands, with replacement characters for what cannot be read.
-/

namespace CompileLog.Markup

open Text

/-- A scalar value other than zero, as a character. -/
def scalar? (code : Nat) : Option Char :=
  if code = 0 ∨ 0x110000 ≤ code ∨ (0xD800 ≤ code ∧ code < 0xE000) then none
  else some (Char.ofNat code)

/-- The character that the text between `&` and `;` stands for. Numbers take no sign, and
only a lower-case `x` announces hexadecimal digits. -/
def referenced? (name : List Char) : Option Char :=
  match name with
  | '#' :: 'x' :: digits => (hexDigits? digits).bind scalar?
  | '#' :: digits => (digits? digits).bind scalar?
  | _ =>
    if name = "lt".toList then some '<'
    else if name = "gt".toList then some '>'
    else if name = "amp".toList then some '&'
    else if name = "apos".toList then some '\''
    else if name = "quot".toList then some '"'
    else none

/-- A text with its references replaced. `pending` holds the characters since an `&`, last
first; the next `&` or `;` must be a `;`. -/
def expand? : Option (List Char) → List Char → Option (List Char)
  | none, [] => some []
  | some _, [] => none
  | none, c :: rest =>
    if c = '&' then expand? (some []) rest else (expand? none rest).map (c :: ·)
  | some name, c :: rest =>
    if c = ';' then
      match referenced? name.reverse with
      | some d => (expand? none rest).map (d :: ·)
      | none => none
    else if c = '&' then none
    else expand? (some (c :: name)) rest

/-- The text of raw bytes with references replaced, or as it stands if that fails. -/
def unescape (raw : List UInt8) : String :=
  match (Utf8.decode? raw).bind (expand? none) with
  | some cs => String.ofList cs
  | none => String.ofList (Utf8.decodeLossy raw)

end CompileLog.Markup

import CompileLog.Text.Numeral

/-!
# Characters, strings and keys of TOML

A TOML document is read from its characters, each reader giving what it read and the
characters after it. Strings come in four forms: with escapes or without, on one line or on
several. Control characters other than the tab stand in none of them.
-/

namespace CompileLog.Toml

open Text

/-- What a reader gives: something read and the characters after it. -/
abbrev Read (α : Type) := Option (α × List Char)

/-- A blank within a line. -/
def isSpace (c : Char) : Bool := c == ' ' || c == '\t'

/-- A character that may stand in a comment, and in a string where it ends none. -/
def isPlain (c : Char) : Bool := c == '\t' || (' ' ≤ c && c != '\x7f')

/-- The characters after the blanks at the front. -/
def skipSpace (cs : List Char) : List Char := cs.dropWhile isSpace

/-- The characters after a line break. -/
def newline? : List Char → Option (List Char)
  | '\n' :: rest => some rest
  | '\r' :: '\n' :: rest => some rest
  | _ => none

/-- The characters after a comment, if one stands at the front. -/
def skipComment : List Char → List Char
  | '#' :: rest => rest.dropWhile isPlain
  | cs => cs

/-- The characters after the end of a line, which may hold blanks and a comment. -/
def lineEnd? (cs : List Char) : Option (List Char) :=
  match skipComment (skipSpace cs) with
  | [] => some []
  | cs => newline? cs

/-- The character that a letter means after a backslash. -/
def escape? (c : Char) : Option Char :=
  match c with
  | 'b' => some '\x08'
  | 't' => some '\t'
  | 'n' => some '\n'
  | 'f' => some '\x0c'
  | 'r' => some '\r'
  | '"' => some '"'
  | '\\' => some '\\'
  | _ => none

/-- The character with a code in hexadecimal digits. -/
def scalar? (digits : List Char) : Option Char :=
  (hexDigits? digits).bind fun code =>
    if code < 0xD800 ∨ (0xDFFF < code ∧ code < 0x110000) then some (Char.ofNat code) else none

/-- Puts a character in front of a string read. -/
def consChar (c : Char) (r : Read (List Char)) : Read (List Char) :=
  r.map fun (cs, rest) => (c :: cs, rest)

/-- A string with escapes, behind its opening quote. -/
def basicText? : List Char → Read (List Char)
  | [] => none
  | '"' :: rest => some ([], rest)
  | '\\' :: 'u' :: a :: b :: c :: d :: rest =>
    (scalar? [a, b, c, d]).bind fun x => consChar x (basicText? rest)
  | '\\' :: 'U' :: a :: b :: c :: d :: e :: f :: g :: h :: rest =>
    (scalar? [a, b, c, d, e, f, g, h]).bind fun x => consChar x (basicText? rest)
  | '\\' :: c :: rest => (escape? c).bind fun x => consChar x (basicText? rest)
  | c :: rest => if isPlain c then consChar c (basicText? rest) else none

/-- A string without escapes, behind its opening apostrophe. -/
def literalText? : List Char → Read (List Char)
  | [] => none
  | '\'' :: rest => some ([], rest)
  | c :: rest => if isPlain c then consChar c (literalText? rest) else none

/-- The end of a string on several lines, behind three closing marks: up to two more of them
belong to the string. -/
def lastMarks (mark : Char) : List Char → List Char × List Char
  | [] => ([], [])
  | a :: rest =>
    if a ≠ mark then ([], a :: rest)
    else
      match rest with
      | [] => ([mark], [])
      | b :: after => if b = mark then ([mark, mark], after) else ([mark], b :: after)

/-- Whether a backslash here joins two lines: only blanks stand before the line break. -/
def joinsLines (cs : List Char) : Bool := (newline? (skipSpace cs)).isSome

/-- A string with escapes on several lines, behind its opening quotes. A backslash at the end
of a line takes away all blanks and line breaks behind it; these are being passed over while
the flag is set. -/
def basicLines? (joining : Bool) : List Char → Read (List Char)
  | [] => none
  | '"' :: '"' :: '"' :: rest => some (lastMarks '"' rest)
  | '\\' :: 'u' :: a :: b :: c :: d :: rest =>
    (scalar? [a, b, c, d]).bind fun x => consChar x (basicLines? false rest)
  | '\\' :: 'U' :: a :: b :: c :: d :: e :: f :: g :: h :: rest =>
    (scalar? [a, b, c, d, e, f, g, h]).bind fun x => consChar x (basicLines? false rest)
  | '\\' :: c :: rest =>
    if joinsLines (c :: rest) then basicLines? true (c :: rest)
    else (escape? c).bind fun x => consChar x (basicLines? false rest)
  | '\r' :: '\n' :: rest =>
    if joining then basicLines? true rest else consChar '\n' (basicLines? false rest)
  | c :: rest =>
    if joining && (isSpace c || c == '\n') then basicLines? true rest
    else if isPlain c || c == '\n' then consChar c (basicLines? false rest)
    else none

/-- A string without escapes on several lines, behind its opening apostrophes. -/
def literalLines? : List Char → Read (List Char)
  | [] => none
  | '\'' :: '\'' :: '\'' :: rest => some (lastMarks '\'' rest)
  | '\r' :: '\n' :: rest => consChar '\n' (literalLines? rest)
  | c :: rest =>
    if isPlain c || c == '\n' then consChar c (literalLines? rest) else none

/-- The characters after a line break, if one stands at the front. -/
def skipNewline (cs : List Char) : List Char := (newline? cs).getD cs

/-- A string on one line. -/
def lineText? : List Char → Read String
  | '"' :: rest => (basicText? rest).map fun (cs, after) => (String.ofList cs, after)
  | '\'' :: rest => (literalText? rest).map fun (cs, after) => (String.ofList cs, after)
  | _ => none

/-- A string of any form. A line break right behind the opening marks is no part of it. -/
def text? : List Char → Read String
  | '"' :: '"' :: '"' :: rest =>
    (basicLines? false (skipNewline rest)).map fun (cs, after) => (String.ofList cs, after)
  | '\'' :: '\'' :: '\'' :: rest =>
    (literalLines? (skipNewline rest)).map fun (cs, after) => (String.ofList cs, after)
  | cs => lineText? cs

/-- A character of a key without quotes. -/
def isKeyChar (c : Char) : Bool :=
  ('a' ≤ c && c ≤ 'z') || ('A' ≤ c && c ≤ 'Z') || isDigit c || c == '-' || c == '_'

/-- One part of a key. -/
def keyPart? (cs : List Char) : Read String :=
  let bare := cs.takeWhile isKeyChar
  if bare.isEmpty then lineText? cs
  else some (String.ofList bare, cs.dropWhile isKeyChar)

/-- The greatest number of parts of a key, and of values within each other. -/
def depthLimit : Nat := 79

/-- A key of at most so many parts, with points between them. -/
def keyParts? : Nat → List Char → Read (List String)
  | 0, _ => none
  | limit + 1, cs =>
    match keyPart? (skipSpace cs) with
    | none => none
    | some (part, rest) =>
      match skipSpace rest with
      | '.' :: rest => (keyParts? limit rest).map fun (parts, after) => (part :: parts, after)
      | rest => some ([part], rest)

/-- A key, and the characters after it and the blanks behind it. -/
def key? (cs : List Char) : Read (List String) := keyParts? depthLimit cs

end CompileLog.Toml

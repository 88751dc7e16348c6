import CompileLog.Text.Numeral

/-!
# JSON tokens

The lexical level of JSON: punctuation, strings, and words, which are numbers and the three
names, with blanks skipped between them. `lex?` reads a whole text or refuses it, and
`Token.write` gives the one spelling that snapshots and reports use.

A text may hold parts that are no characters. They may stand inside strings only, and a
string that holds one stands for no text, like one that holds half of a surrogate pair.
-/

namespace CompileLog.Json

open Text

/-- A lexical unit of JSON. -/
inductive Token where
  | leftBrace
  | rightBrace
  | leftBracket
  | rightBracket
  | colon
  | comma
  | null
  | bool (value : Bool)
  | integer (value : Int)
  | real (literal : String)
  | string (value : String)
  /-- A string that stands for no text. -/
  | garbled
  deriving DecidableEq, Inhabited

/-- A blank between tokens. -/
def isSpace (c : Char) : Bool := c == ' ' || c == '\t' || c == '\n' || c == '\r'

/-- A character of a number or a name. -/
def isWordChar (c : Char) : Bool :=
  ('a' ≤ c && c ≤ 'z') || ('A' ≤ c && c ≤ 'Z') || isDigit c || c == '+' || c == '-' || c == '.'

/-- The value of hexadecimal digits. -/
def unit? (digits : List (Option Char)) : Option Nat :=
  (digits.mapM id).bind (valueFrom 16 hexDigit? 0)

/-- The character after a backslash that stands for itself or for a control
character. -/
def simpleEscape? (c : Char) : Option Char :=
  match c with
  | '"' => some '"'
  | '\\' => some '\\'
  | '/' => some '/'
  | 'b' => some '\x08'
  | 'f' => some '\x0c'
  | 'n' => some '\n'
  | 'r' => some '\r'
  | 't' => some '\t'
  | _ => none

/-- What a string consists of. -/
inductive Part where
  /-- A character, written as it is or escaped. -/
  | char (c : Char)
  /-- Half of a surrogate pair, escaped. -/
  | half (unit : Nat)
  /-- Something that is no character. -/
  | broken
  deriving DecidableEq

/-- The part that an escaped unit of sixteen bits stands for. -/
def Part.ofUnit (unit : Nat) : Part :=
  if 0xD800 ≤ unit ∧ unit < 0xE000 then .half unit else .char (Char.ofNat unit)

/-- The parts of a string after its opening quote, and the text after its closing one. A bare
control character is refused. -/
def stringParts? : List (Option Char) → Option (List Part × List (Option Char))
  | [] => none
  | some '"' :: rest => some ([], rest)
  | some '\\' :: some 'u' :: a :: b :: c :: d :: rest =>
    match unit? [a, b, c, d] with
    | none => none
    | some unit => (stringParts? rest).map fun (ps, after) => (.ofUnit unit :: ps, after)
  | some '\\' :: c :: rest =>
    match c.bind simpleEscape? with
    | none => none
    | some plain => (stringParts? rest).map fun (ps, after) => (.char plain :: ps, after)
  | some c :: rest =>
    if c.toNat < 0x20 then none
    else (stringParts? rest).map fun (ps, after) => (.char c :: ps, after)
  | none :: rest => (stringParts? rest).map fun (ps, after) => (.broken :: ps, after)

/-- The text that parts stand for. Two halves make a character if they are a pair in order. -/
def textOf? : List Part → Option (List Char)
  | [] => some []
  | .char c :: rest => (textOf? rest).map (c :: ·)
  | .half high :: .half low :: rest =>
    if high < 0xDC00 ∧ 0xDC00 ≤ low then
      (textOf? rest).map (Char.ofNat (0x10000 + (high - 0xD800) * 0x400 + (low - 0xDC00)) :: ·)
    else none
  | _ => none

/-- The token of a string. -/
def stringToken (parts : List Part) : Token :=
  match textOf? parts with
  | some cs => .string (String.ofList cs)
  | none => .garbled

/-- The digits after a decimal point, if there is one. -/
def fraction? : List Char → Option (List Char × List Char)
  | '.' :: rest =>
    let run := rest.takeWhile isDigit
    if run.isEmpty then none else some ('.' :: run, rest.dropWhile isDigit)
  | cs => some ([], cs)

/-- An exponent, if there is one. -/
def exponent? (cs : List Char) : Option (List Char × List Char) :=
  match cs with
  | c :: rest =>
    if c = 'e' ∨ c = 'E' then
      let (sign, digits) :=
        match rest with
        | '+' :: after => (['+'], after)
        | '-' :: after => (['-'], after)
        | after => ([], after)
      let run := digits.takeWhile isDigit
      if run.isEmpty then none else some (c :: sign ++ run, digits.dropWhile isDigit)
    else some ([], cs)
  | [] => some ([], [])

/-- The digits before the decimal point: a zero alone, or a run without leading zero. -/
def wholePart? : List Char → Option (List Char × List Char)
  | '0' :: rest => some (['0'], rest)
  | cs =>
    let run := cs.takeWhile isDigit
    if run.isEmpty then none else some (run, cs.dropWhile isDigit)

/-- A number without its sign. -/
def number? (negative : Bool) (cs : List Char) : Option Token := do
  let (whole, afterWhole) ← wholePart? cs
  let (fraction, afterFraction) ← fraction? afterWhole
  let (exponent, after) ← exponent? afterFraction
  guard after.isEmpty
  if fraction.isEmpty ∧ exponent.isEmpty ∧ ¬ (negative ∧ whole = ['0']) then
    let magnitude : Int := ((digits? whole).getD 0 : Nat)
    return .integer (if negative then -magnitude else magnitude)
  else
    let sign := if negative then ['-'] else []
    return .real (String.ofList (sign ++ whole ++ fraction ++ exponent))

/-- The token that a word is. -/
def word? : List Char → Option Token
  | ['n', 'u', 'l', 'l'] => some .null
  | ['t', 'r', 'u', 'e'] => some (.bool true)
  | ['f', 'a', 'l', 's', 'e'] => some (.bool false)
  | '-' :: unsigned => number? true unsigned
  | unsigned => number? false unsigned

/-- The token at the front of a text that starts with no blank, and the text after it. -/
def nextToken? : List (Option Char) → Option (Token × List (Option Char))
  | some '{' :: rest => some (.leftBrace, rest)
  | some '}' :: rest => some (.rightBrace, rest)
  | some '[' :: rest => some (.leftBracket, rest)
  | some ']' :: rest => some (.rightBracket, rest)
  | some ':' :: rest => some (.colon, rest)
  | some ',' :: rest => some (.comma, rest)
  | some '"' :: rest => (stringParts? rest).map fun (ps, after) => (stringToken ps, after)
  | cs =>
    let inWord (c : Option Char) : Bool := c.any isWordChar
    (word? ((cs.takeWhile inWord).filterMap id)).map fun t => (t, cs.dropWhile inWord)

/-- The text behind the blanks at its front. -/
def skipSpace (cs : List (Option Char)) : List (Option Char) := cs.dropWhile fun c => c.any isSpace

/-- The tokens of a text, for at most `fuel` tokens. -/
def lexFrom? : Nat → List (Option Char) → Option (List Token)
  | 0, cs => if (skipSpace cs).isEmpty then some [] else none
  | fuel + 1, cs =>
    match skipSpace cs with
    | [] => some []
    | c :: rest =>
      match nextToken? (c :: rest) with
      | none => none
      | some (token, after) => (lexFrom? fuel after).map (token :: ·)

/-- The tokens of a whole text. Every token takes a character at least, so the length
of the text bounds their number. -/
def lex? (cs : List (Option Char)) : Option (List Token) :=
  lexFrom? cs.length cs

/-- A character inside a written string. -/
def writeChar (c : Char) : List Char :=
  if c = '"' then ['\\', '"']
  else if c = '\\' then ['\\', '\\']
  else if c = '\x08' then ['\\', 'b']
  else if c = '\x0c' then ['\\', 'f']
  else if c = '\n' then ['\\', 'n']
  else if c = '\r' then ['\\', 'r']
  else if c = '\t' then ['\\', 't']
  else if c.toNat < 0x20 then
    ['\\', 'u', '0', '0', digitChar (c.toNat / 16), digitChar (c.toNat % 16)]
  else [c]

/-- The written form of a token. -/
def Token.write : Token → List Char
  | .leftBrace => ['{']
  | .rightBrace => ['}']
  | .leftBracket => ['[']
  | .rightBracket => [']']
  | .colon => [':']
  | .comma => [',']
  | .null => "null".toList
  | .bool true => "true".toList
  | .bool false => "false".toList
  | .integer i => signedDecimal i
  | .real literal => literal.toList
  | .string s => '"' :: s.toList.flatMap writeChar ++ ['"']
  | .garbled => "\"\\ud800\"".toList

end CompileLog.Json

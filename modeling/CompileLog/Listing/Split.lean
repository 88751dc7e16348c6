import CompileLog.Text.Blank

/-!
# Several listings in one text

Printed output may hold the listings of several methods one after the other. A header line
opens a new listing once a header or code was seen, and a line that says which code is
decoded opens one once code was seen.
-/

namespace CompileLog.Listing

open Text

/-- A line that heads the listing of a method. -/
def isHeaderLine (line : List Char) : Bool :=
  "Compiled method (".toList.isPrefixOf (trimStart line)

/-- A line that says which code is decoded. -/
def isDecodingLine (line : List Char) : Bool :=
  "Decoding compiled method".toList.isPrefixOf (trimStart line)

/-- A line that starts with an address. -/
def isCodeLine (line : List Char) : Bool :=
  "0x".toList.isPrefixOf (trimStart line)

/-- The listing being collected. -/
structure Pending where
  /-- Its lines, last first. -/
  lines : List (List Char)
  /-- Whether a header was seen. -/
  header : Bool
  /-- Whether code was seen. -/
  code : Bool

/-- Nothing collected yet. -/
def Pending.none : Pending := ⟨[], false, false⟩

/-- Whether a line opens a new listing. -/
def Pending.opensNew (p : Pending) (line : List Char) : Bool :=
  (isHeaderLine line && (p.header || p.code)) || (isDecodingLine line && p.code)

/-- Whether anything but blanks was collected. -/
def Pending.isBlank (p : Pending) : Bool := p.lines.all isBlankText

/-- Collects a line. -/
def Pending.add (p : Pending) (line : List Char) : Pending :=
  ⟨line :: p.lines, p.header || isHeaderLine line, p.code || isCodeLine line⟩

/-- The text collected, each line with a line feed. -/
def Pending.text (p : Pending) : List Char :=
  p.lines.reverse.flatMap fun line => line ++ ['\n']

/-- The listings of the lines left, after the one being collected. -/
def splitFrom (p : Pending) : List (List Char) → List (List Char)
  | [] => if p.isBlank then [] else [p.text]
  | line :: rest =>
    if p.opensNew line && !p.isBlank then p.text :: splitFrom (Pending.none.add line) rest
    else splitFrom (p.add line) rest

/-- The listings that a text holds. -/
def split (text : List Char) : List (List Char) :=
  splitFrom .none (lines text)

end CompileLog.Listing

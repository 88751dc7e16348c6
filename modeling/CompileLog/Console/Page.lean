import CompileLog.Text.Numeral

/-!
# Pages

What a command prints is a page: pieces of text, each with a tone that tells what it says about
a compilation. The tone becomes a color where colors are wanted and is dropped where they are
not, so the texts of a page are the same either way.
-/

namespace CompileLog.Console

/-- What a text says. -/
inductive Tone where
  /-- Nothing of note. -/
  | plain
  /-- A detail. -/
  | quiet
  /-- What the line is about. -/
  | strong
  /-- Code in service, or a wish fulfilled. -/
  | live
  /-- A failure. -/
  | broken
  /-- Code out of service, or something that should not be. -/
  | suspect
  /-- A place in the bytecode, or what has a number. -/
  | position
  deriving DecidableEq, Repr

/-- The codes that a terminal is set to a tone with. -/
def Tone.codes : Tone → List Nat
  | .plain => []
  | .quiet => [2]
  | .strong => [1]
  | .live => [1, 32]
  | .broken => [1, 31]
  | .suspect => [1, 33]
  | .position => [36]

/-- A piece of a page. -/
inductive Piece where
  /-- A text in a tone. -/
  | painted (tone : Tone) (text : String)
  /-- A text that is never painted. -/
  | bare (text : String)
  deriving DecidableEq

/-- What a command prints. -/
abbrev Page := List Piece

/-- The sequence that hands a terminal a code. -/
def escape (code : Nat) : String := "\x1b[" ++ String.ofList (Text.decimal code) ++ "m"

/-- A text in a tone, for a terminal. The terminal is set back before it and behind it. -/
def paint (tone : Tone) (text : String) : String :=
  escape 0 ++ String.join (tone.codes.map escape) ++ text ++ escape 0

namespace Piece

/-- A text of no note. -/
def plain (text : String) : Piece := painted .plain text

/-- A detail. -/
def quiet (text : String) : Piece := painted .quiet text

/-- What a line is about. -/
def strong (text : String) : Piece := painted .strong text

/-- A text about code in service. -/
def live (text : String) : Piece := painted .live text

/-- A text about a failure. -/
def broken (text : String) : Piece := painted .broken text

/-- A text about something that should not be. -/
def suspect (text : String) : Piece := painted .suspect text

/-- A text about a place. -/
def position (text : String) : Piece := painted .position text

/-- The end of a line. -/
def lineEnd : Piece := bare "\n"

/-- The text of a piece alone. -/
def text : Piece → String
  | painted _ text => text
  | bare text => text

/-- A piece with colors or without. -/
def render (colored : Bool) : Piece → String
  | painted tone text => if colored then paint tone text else text
  | bare text => text

end Piece

/-- A page with colors or without. -/
def Page.render (colored : Bool) (page : Page) : String :=
  String.join (page.map (Piece.render colored))

/-! ### Columns -/

/-- A number in base ten. -/
def number (n : Nat) : String := String.ofList (Text.decimal n)

/-- A text filled up with blanks behind it. -/
def padded (width : Nat) (text : String) : String :=
  String.ofList (Text.padRight ' ' width text.toList)

/-- A text filled up with blanks in front of it. -/
def flushRight (width : Nat) (text : String) : String :=
  String.ofList (Text.padLeft ' ' width text.toList)

/-- The number of a task, in a column. -/
def taskNumber (id : UInt64) : String := "#" ++ padded 6 (number id.toNat)

/-- A number of 32 bits; a question mark where it is not known. -/
def numberOrMark (n : Option UInt32) : String :=
  (n.map fun n => number n.toNat).getD "?"

/-! ### Lines -/

/-- A line above others. -/
def heading (text : String) : Page := [.strong text, .lineEnd]

/-- The label of a value. -/
def label (name : String) : Piece := .quiet ("  " ++ padded 22 (name ++ ":"))

/-- A line with a labeled value. -/
def field (name value : String) : Page := [label name, .plain value, .lineEnd]

/-- A line with a labeled number. -/
def count (name : String) (n : Nat) : Page := field name (number n)

/-- A line with the number of things that should not be. -/
def anomaly (name : String) (n : Nat) : Page :=
  [label name, if n = 0 then .plain "0" else .suspect (number n), .lineEnd]

end CompileLog.Console

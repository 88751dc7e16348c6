import CompileLog.Listing.Anchors

/-!
# Reading a listing

A listing is read line by line. Lines that start with an address give instructions, or raw
bytes if no disassembler was at work; the other lines give titles, comments and the header.
An instruction may be wrapped onto the line after its address, and a comment onto lines of
its own.
-/

namespace CompileLog.Listing

open Text

/-! ### Recognising lines -/

/-- The hexadecimal digits of an address at the front of a line, and what follows its
colon. -/
def addressLine? : List Char → Option (List Char × List Char)
  | '0' :: 'x' :: rest =>
    let digits := rest.takeWhile isHexDigit
    if digits.isEmpty then none
    else
      match rest.dropWhile isHexDigit with
      | ':' :: body => some (digits, trimStart body)
      | _ => none
  | _ => none

/-- Code before the comment, and the comment. A semicolon starts a comment; among raw bytes
a number sign does, too. -/
def splitComment (raw : Bool) (body : List Char) : List Char × Option (List Char) :=
  let inCode := fun c : Char => !(c == ';' || (raw && c == '#'))
  match body.dropWhile inCode with
  | [] => (trim body, none)
  | comment => (trim (body.takeWhile inCode), some (trim comment))

/-- Hexadecimal digits in groups, with blanks and bars between them. -/
def isRawBytes (code : List Char) : Bool :=
  (code.head?.any isHexDigit) && (code.getLast?.any isHexDigit) &&
    code.all fun c => isHexDigit c || isBlank c || c == '|'

/-- Whether a line holds an instruction that is not raw bytes. -/
def isInstructionLine (line : List Char) : Bool :=
  match addressLine? (trimStart line) with
  | some (_, body) =>
    let code := (splitComment true body).1
    !code.isEmpty && !isRawBytes code
  | none => false

/-- Whether a text was printed with a disassembler at work. -/
def isDisassembly (text : List Char) : Bool :=
  contains "[Disassembling for mach".toList text || (Text.lines text).any isInstructionLine

/-- The bytes of pairs of hexadecimal digits. -/
def bytesOfDigits : List Char → List UInt8
  | a :: b :: rest =>
    UInt8.ofNat ((hexDigit? a).getD 0 * 16 + (hexDigit? b).getD 0) :: bytesOfDigits rest
  | _ => []

/-- The bytes of a line of raw bytes; none if its digits do not come in pairs. -/
def rawBytes (code : List Char) : List UInt8 :=
  let digits := code.filter isHexDigit
  if digits.length % 2 = 0 then bytesOfDigits digits else []

/-- Words that stand in front of a mnemonic and belong to it. -/
def mnemonicPrefixes : List String :=
  ["lock", "rep", "repe", "repz", "repne", "repnz", "data16", "data32", "addr32", "notrack",
   "bnd", "rex", "rex.W"]

/-- Behind the first word of a text, and the blanks after it, less is left. -/
theorem length_afterWord_lt {cs : List Char} (h : cs ≠ []) :
    (trimStart (cs.dropWhile fun c => !isBlank c)).length < cs.length := by
  cases cs with
  | nil => exact absurd rfl h
  | cons c rest =>
    unfold trimStart
    by_cases hc : isBlank c
    · have := length_dropWhile_le isBlank rest
      simp [hc]
      omega
    · have h₁ := length_dropWhile_le (fun c => !isBlank c) rest
      have h₂ := length_dropWhile_le isBlank (rest.dropWhile fun c => !isBlank c)
      simp [hc]
      omega

/-- The mnemonic with its prefixes, and the operands; `code` starts with no blank. -/
def splitMnemonic (code : List Char) : List Char × List Char :=
  let word := code.takeWhile fun c => !isBlank c
  match _tail : trimStart (code.dropWhile fun c => !isBlank c) with
  | [] => (word, [])
  | c :: rest =>
    if mnemonicPrefixes.contains (String.ofList word) then
      let (mnemonic, operands) := splitMnemonic (c :: rest)
      (word ++ ' ' :: mnemonic, operands)
    else (word, c :: rest)
termination_by code.length
decreasing_by
  rw [← _tail]
  exact length_afterWord_lt (by rintro rfl; simp [trimStart] at _tail)

/-- Writes an apostrophe for each escaped one. -/
def plainApostrophes : List Char → List Char
  | '&' :: 'a' :: 'p' :: 'o' :: 's' :: ';' :: rest => '\'' :: plainApostrophes rest
  | c :: rest => c :: plainApostrophes rest
  | [] => []

/-! ### The header line -/

/-- What the header line says. -/
structure Heading where
  /-- The compiler. -/
  compiler : List Char
  /-- The digits of the time. -/
  stamp : List Char
  /-- The digits of the number of the compilation. -/
  compileId : List Char
  /-- The digit of the tier. -/
  level : Option Char

/-- One or more blanks and then one or more digits: the digits and what follows. -/
def blanksThenDigits? (cs : List Char) : Option (List Char × List Char) :=
  if cs.head?.any isBlank then
    let rest := trimStart cs
    let run := rest.takeWhile isAnyDigit
    if run.isEmpty then none else some (run, rest.dropWhile isAnyDigit)
  else none

/-- A character that marks a property of the compiled method. -/
def isMarkChar (c : Char) : Bool :=
  c == '%' || c == 's' || c == 'b' || c == 'n' || c == '!'

/-- What follows blanks and then groups of marks. -/
def skipMarks (cs : List Char) : List Char :=
  match _start : trimStart cs with
  | [] => cs
  | c :: rest =>
    if cs.head?.any isBlank && isMarkChar c then skipMarks (rest.dropWhile isMarkChar) else cs
termination_by cs.length
decreasing_by
  have hrest := length_dropWhile_le isMarkChar rest
  have htrim := length_dropWhile_le isBlank cs
  unfold trimStart at _start
  rw [_start] at htrim
  simp only [List.length_cons] at htrim
  omega

/-- One digit with blanks on both sides. -/
def loneDigit? (cs : List Char) : Option Char :=
  if cs.head?.any isBlank then
    match trimStart cs with
    | d :: after :: _ => if isAnyDigit d && isBlank after then some d else none
    | _ => none
  else none

/-- Reads the header line of a method. -/
def heading? (line : List Char) : Option Heading :=
  let start := "Compiled method (".toList
  let line := trimStart line
  if start.isPrefixOf line then
    let rest := line.drop start.length
    match rest.dropWhile (· ≠ ')') with
    | [] => none
    | _ :: rest' =>
      match blanksThenDigits? rest' with
      | none => none
      | some (stamp, rest'') =>
        match blanksThenDigits? rest'' with
        | none => none
        | some (compileId, after) =>
          some ⟨rest.takeWhile (· ≠ ')'), stamp, compileId, loneDigit? (skipMarks after)⟩
  else none

/-- The hexadecimal digits of the first address that a line says is decoded. -/
def decodedAddress? : List Char → Option (List Char)
  | [] => none
  | c :: rest =>
    let start := "Decoding compiled method 0x".toList
    let here :=
      if start.isPrefixOf (c :: rest) then
        let digits := ((c :: rest).drop start.length).takeWhile isHexDigit
        if digits.isEmpty then none else some digits
      else none
    here.or (decodedAddress? rest)

/-! ### Collecting blocks -/

/-- The title of instructions in front of any title. -/
def defaultTitle : String := "[Entry Point]"

/-- A block being collected. -/
structure OpenBlock where
  /-- Its title. -/
  title : String
  /-- Its lines, last first. -/
  lines : List Line

/-- A listing as far as it has been read. -/
structure Draft where
  /-- What is known of the method. -/
  facts : Listing
  /-- Lines of the header, last first. -/
  header : List (List Char)
  /-- Finished blocks, last first. -/
  blocks : List Block
  /-- The block being collected. -/
  block : Option OpenBlock

/-- A line joined to an earlier one at the same address: the first mnemonic counts, bytes
and comments add up. -/
def Line.join (first second : Line) : Line where
  address := first.address
  mnemonic := if first.mnemonic = "" then second.mnemonic else first.mnemonic
  operands := if first.mnemonic = "" then second.operands else first.operands
  bytes := first.bytes ++ second.bytes
  comments := first.comments ++ second.comments

/-- The block with its lines in order. -/
def OpenBlock.close (b : OpenBlock) : Block := ⟨b.title, b.lines.reverse⟩

namespace Draft

/-- Opens a block. -/
def startBlock (d : Draft) (title : String) : Draft :=
  { d with blocks := (d.block.map OpenBlock.close).toList ++ d.blocks, block := some ⟨title, []⟩ }

/-- Changes the last line of the open block, if it has one. -/
def mapLast (d : Draft) (f : Line → Line) : Draft :=
  match d.block with
  | some ⟨title, last :: before⟩ => { d with block := some ⟨title, f last :: before⟩ }
  | _ => d

/-- Adds a line. One at the address of the line before it is joined to that. -/
def addLine (d : Draft) (line : Line) : Draft :=
  match d.block with
  | some ⟨title, last :: before⟩ =>
    if last.address = line.address then { d with block := some ⟨title, last.join line :: before⟩ }
    else { d with block := some ⟨title, line :: last :: before⟩ }
  | some ⟨title, []⟩ => { d with block := some ⟨title, [line]⟩ }
  | none => { d with block := some ⟨defaultTitle, [line]⟩ }

/-- Adds a comment to the last line. -/
def addComment (d : Draft) (comment : List Char) : Draft :=
  d.mapLast fun line => { line with comments := line.comments ++ [String.ofList comment] }

/-- Goes on with the last comment of the last line. -/
def continueComment (d : Draft) (text : List Char) : Draft :=
  d.mapLast fun line =>
    match line.comments.getLast? with
    | some comment =>
      { line with
        comments := line.comments.dropLast ++ [comment ++ " " ++ String.ofList text] }
    | none => line

/-- Notes what a line says of the method, wherever in the listing it stands. -/
def note (d : Draft) (line : List Char) : Draft :=
  let facts :=
    match heading? line with
    | some h =>
      { d.facts with
        compiler := some (String.ofList h.compiler)
        stampMillis := (natural? h.stamp).bind word64?
        compileId := (natural? h.compileId).bind word64?
        level := h.level.bind fun c => (digits? [c]).bind word8? }
    | none => d.facts
  let facts :=
    match decodedAddress? line with
    | some digits => { facts with codeAddress := (hexDigits? digits).bind word64? }
    | none => facts
  { d with facts }

/-- Adds a line to the header. -/
def addHeader (d : Draft) (line : List Char) : Draft :=
  { d with header := line :: d.header }

/-- The finished listing. -/
def finish (d : Draft) : Listing :=
  { d.facts with
    header := String.ofList (d.header.reverse.flatMap fun line => line ++ ['\n'])
    blocks := ((d.block.map OpenBlock.close).toList ++ d.blocks).reverse }

end Draft

/-- The line of an address and what stands behind it. -/
def Line.ofBody (disassembled : Bool) (address : UInt64) (body : List Char) : Line :=
  let (code, comment) := splitComment (!disassembled) body
  let comments := (comment.map String.ofList).toList
  if disassembled then
    let (mnemonic, operands) := splitMnemonic code
    ⟨address, String.ofList mnemonic, String.ofList operands, [], comments⟩
  else ⟨address, "", "", rawBytes code, comments⟩

/-- Whether a line can be the wrapped rest of the address line before it. -/
def canContinue (line : List Char) : Bool :=
  !line.isEmpty && !"0x".toList.isPrefixOf line && !"[".toList.isPrefixOf line

/-- Reads a line that starts with no address. -/
def Draft.readOther (d : Draft) (line : List Char) : Draft :=
  match line with
  | '#' :: _ =>
    let d := d.addHeader line
    if "# \x7bmethod\x7d".toList.isPrefixOf line then
      { d with facts := { d.facts with signature := some (String.ofList line) } }
    else d
  | '[' :: _ =>
    if line = "[Constants]".toList ∨ "[Disassembling".toList.isPrefixOf line then d
    else d.startBlock (String.ofList line)
  | ';' :: _ => d.addComment line
  | _ => if d.block.isNone then d.addHeader line else d.continueComment line

/-- Reads the trimmed lines of a listing. An address without anything behind it takes its
instruction from the next line, if that can be the rest of it; an address beyond 64 bits
is passed over. -/
def Draft.readLines (disassembled : Bool) (d : Draft) : List (List Char) → Draft
  | [] => d
  | line :: rest =>
    let d := d.note line
    match addressLine? line with
    | none => (if line.isEmpty then d else d.readOther line).readLines disassembled rest
    | some (digits, body) =>
      match (hexDigits? digits).bind word64? with
      | none => d.readLines disassembled rest
      | some address =>
        match rest with
        | next :: rest' =>
          if body.isEmpty && canContinue next then
            (d.addLine (.ofBody disassembled address next)).readLines disassembled rest'
          else (d.addLine (.ofBody disassembled address body)).readLines disassembled (next :: rest')
        | [] => d.addLine (.ofBody disassembled address body)

/-- Reads the listing of one method. -/
def parse (text : List Char) : Listing :=
  let disassembled := isDisassembly text
  let draft : Draft := ⟨{ Listing.blank with disassembled }, [], [], none⟩
  (draft.readLines disassembled ((Text.lines text).map (trim ∘ plainApostrophes))).finish

end CompileLog.Listing

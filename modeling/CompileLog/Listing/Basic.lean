import CompileLog.Text.Numeral

/-!
# Printed machine code

A listing is what the virtual machine prints of one compiled method: titled blocks of
instructions, each at an address. Without a disassembler it prints the raw bytes instead.
Native offsets count from the lowest printed address, the base.
-/

namespace CompileLog

/-- The greatest number of bytes that a printed method may span. -/
def maxCodeSpan : Nat := 16777216

namespace Listing

/-- One printed instruction, or one line of raw bytes. -/
structure Line where
  /-- Its address. -/
  address : UInt64
  /-- The mnemonic with its prefixes; empty for raw bytes. -/
  mnemonic : String
  /-- The operands. -/
  operands : String
  /-- The raw bytes; empty for a disassembled instruction. -/
  bytes : List UInt8
  /-- Comments printed with it. -/
  comments : List String
  deriving DecidableEq, Inhabited

/-- A titled part of a listing. -/
structure Block where
  /-- The title as printed. -/
  title : String
  /-- Its instructions as printed. -/
  lines : List Line
  deriving DecidableEq, Inhabited

end Listing

/-- What is printed of one compiled method. -/
structure Listing where
  /-- Number of the compilation. -/
  compileId : Option UInt64
  /-- Name of the compiler. -/
  compiler : Option String
  /-- Tier. -/
  level : Option UInt8
  /-- Time in the header, in milliseconds. -/
  stampMillis : Option UInt64
  /-- Address of the machine code that is decoded. -/
  codeAddress : Option UInt64
  /-- The lines in front of the code. -/
  header : String
  /-- The line that names the method. -/
  signature : Option String
  /-- Whether instructions were printed, and not raw bytes. -/
  disassembled : Bool
  /-- The blocks as printed. -/
  blocks : List Listing.Block
  deriving DecidableEq, Inhabited

/-- Raw bytes that lie too far apart for one method. -/
structure SpanError where
  /-- The number of bytes spanned. -/
  span : Nat
  /-- The number of bytes allowed. -/
  limit : Nat
  deriving DecidableEq

/-- The text of the refusal. -/
def SpanError.message (e : SpanError) : String :=
  "hex dump spans " ++ String.ofList (Text.decimal e.span) ++ " bytes, limit is " ++
    String.ofList (Text.decimal e.limit)

/-- A machine instruction by its place relative to the base. -/
structure NativeInstruction where
  /-- Offset of its first byte. -/
  offset : UInt64
  /-- Number of bytes. -/
  length : UInt64
  /-- The mnemonic, for display. -/
  mnemonic : String
  /-- The operands, for display. -/
  operands : String
  deriving DecidableEq, Inhabited

/-- The offset behind an instruction. -/
def NativeInstruction.stop (i : NativeInstruction) : Nat := i.offset.toNat + i.length.toNat

namespace Listing

/-- The listing without any text. -/
def blank : Listing := ⟨none, none, none, none, none, "", none, false, []⟩

/-- All lines, block by block. -/
def lines (l : Listing) : List Line := l.blocks.flatMap Block.lines

/-- The lowest printed address. -/
def base? (l : Listing) : Option UInt64 := (l.lines.map Line.address).min?

/-- The offset of a line from a base. -/
def Line.offsetFrom (base : UInt64) (line : Line) : Nat := line.address.toNat - base.toNat

/-- Number of bytes from the base to the end of the last raw bytes. -/
def codeSpan (l : Listing) : Nat :=
  match l.base? with
  | none => 0
  | some base =>
    (l.lines.filter fun line => !line.bytes.isEmpty).foldl
      (fun span line => max span (min (line.offsetFrom base + line.bytes.length) (UInt64.size - 1))) 0

/-- Writes bytes over an image from an offset on. -/
def writeBytes (image : Array UInt8) : Nat → List UInt8 → Array UInt8
  | _, [] => image
  | offset, b :: rest => writeBytes (image.setIfInBounds offset b) (offset + 1) rest

/-- The machine code put together from raw bytes. Where lines overlap the later line
counts, and what no line covers is zero. A code that spans more than the limit is refused
before it is built. -/
def code (l : Listing) (limit : Nat) : Except SpanError (List UInt8) :=
  if limit < l.codeSpan then .error ⟨l.codeSpan, limit⟩
  else
    match l.base? with
    | none => .ok []
    | some base =>
      let image := (l.lines.filter fun line => !line.bytes.isEmpty).foldl
        (fun image line => writeBytes image (line.offsetFrom base) line.bytes)
        (Array.replicate l.codeSpan 0)
      .ok image.toList

/-- Keeps the first of several consecutive lines with one address. -/
def dropRepeated : List Line → List Line
  | [] => []
  | line :: rest => line :: dropRepeated (rest.dropWhile fun l => l.address = line.address)
termination_by lines => lines.length
decreasing_by
  have := Text.length_dropWhile_le (fun l : Line => decide (l.address = line.address)) rest
  simp only [List.length_cons]
  omega

/-- The disassembled lines by address, one for each address. -/
def printed (l : Listing) : List Line :=
  dropRepeated ((l.lines.filter fun line => line.mnemonic ≠ "").mergeSort
    fun a b => a.address ≤ b.address)

/-- Length of the last instruction: up to the end of the code if that lies behind it, else
one byte. -/
def lastLength (codeEnd : Option UInt64) (offset : UInt64) : UInt64 :=
  match codeEnd with
  | some stop => if offset < stop then stop - offset else 1
  | none => 1

/-- Instructions of lines in address order. Each runs up to the next one. -/
def boundariesOf (base : UInt64) (codeEnd : Option UInt64) : List Line → List NativeInstruction
  | [] => []
  | line :: rest =>
    let offset := line.address - base
    let length :=
      match rest with
      | next :: _ => next.address - line.address
      | [] => lastLength codeEnd offset
    ⟨offset, length, line.mnemonic, line.operands⟩ :: boundariesOf base codeEnd rest

/-- The boundaries of the disassembled instructions, as offsets from the base. -/
def boundaries (l : Listing) (codeEnd : Option UInt64) : List NativeInstruction :=
  match l.base? with
  | none => []
  | some base => boundariesOf base codeEnd l.printed

end Listing

end CompileLog

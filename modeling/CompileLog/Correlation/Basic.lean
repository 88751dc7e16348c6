import CompileLog.Listing.Anchors
import CompileLog.Method
import CompileLog.Search

/-!
# Machine code and the bytecode it comes from

A correlation cuts the native offsets of one compiled method into entries. Each entry is a
run of instructions that come from the same place in the bytecode, or a gap that no
instruction covers.
-/

namespace CompileLog

/-- Where a run of instructions comes from. -/
inductive Mapping where
  /-- Code in front of the first anchor. -/
  | prologue
  /-- The bytecodes from the first to the last index tied to the governing offset. -/
  | bytecode (first last : UInt32)
  /-- No bytecode: code of the compiler's own, or a gap. -/
  | unmapped
  deriving DecidableEq, Repr

namespace Correlation

/-- A run of instructions from one place, or a gap. -/
structure Entry where
  /-- Offset of its first byte. -/
  start : Nat
  /-- Offset behind its last byte. -/
  stop : Nat
  /-- Where it comes from. -/
  mapping : Mapping
  /-- Its instructions; none in a gap. -/
  instructions : List NativeInstruction
  /-- The source line of its first bytecode. -/
  sourceLine : Option UInt32
  deriving DecidableEq

/-- Whether an offset lies in an entry. -/
def Entry.contains (e : Entry) (offset : Nat) : Bool :=
  e.start ≤ offset && offset < e.stop

/-- Problems met that do no harm to the rest. -/
structure Anomalies where
  /-- Anchor offsets inside the code at which no instruction starts before the next. -/
  misaligned : Nat
  /-- Anchor offsets at or behind the end of the code. -/
  pastEnd : Nat
  /-- Instructions that start inside an earlier one. -/
  overlapping : Nat
  deriving DecidableEq, Inhabited

/-- The number of problems. -/
def Anomalies.total (a : Anomalies) : Nat := a.misaligned + a.pastEnd + a.overlapping

end Correlation

/-- The bytecode of each stretch of machine code. -/
structure Correlation where
  /-- The entries by offset. -/
  entries : List Correlation.Entry
  /-- The problems met. -/
  anomalies : Correlation.Anomalies
  /-- Number of instructions. -/
  instructionCount : Nat
  deriving DecidableEq

/-- Lines of the source, by method and bytecode index. -/
abbrev SourceLines := Method → UInt32 → Option UInt32

/-- Why machine code could not be disassembled. -/
inductive DisassemblyError where
  /-- There is no disassembler. -/
  | unavailable
  /-- The bytes at an offset are no instruction. -/
  | failed (offset : UInt64) (message : String)
  deriving DecidableEq

/-- The text of a failure. -/
def DisassemblyError.message : DisassemblyError → String
  | .unavailable => "No disassembler is available"
  | .failed offset message =>
    "Disassembly failed at offset 0x" ++ String.ofList (Text.hexadecimal offset.toNat) ++ ": " ++
      message

/-- Turns the bytes of a method, based at an address, into its instructions. -/
abbrev Disassembler := List UInt8 → UInt64 → Except DisassemblyError (List NativeInstruction)

namespace Correlation

/-- The entry that covers an offset, found by binary search for the first entry that ends
behind it. -/
def entryAt (c : Correlation) (offset : Nat) : Option Entry :=
  let entries := c.entries.toArray
  let ends := fun i => match entries[i]? with
    | some e => decide (e.stop ≤ offset)
    | none => false
  (entries[turningPoint ends entries.size]?).filter fun e => e.contains offset

/-- Where the code at an offset comes from. -/
def mappingAt (c : Correlation) (offset : Nat) : Option Mapping :=
  (c.entryAt offset).map Entry.mapping

/-- An entry with the source line of its first bytecode filled in. -/
def Entry.withLine (method : Method) (lines : SourceLines) (e : Entry) : Entry :=
  match e.mapping with
  | .bytecode first _ => { e with sourceLine := lines method first }
  | _ => e

/-- Fills in the source lines of a method. -/
def withLines (c : Correlation) (method : Method) (lines : SourceLines) : Correlation :=
  { c with entries := c.entries.map (Entry.withLine method lines) }

end Correlation

/-- Source lines taken from the anchors of one method: the line of the nearest annotated
index at or below the one asked for. -/
def SourceLines.ofAnchors (method : Method) (anchors : List Anchor) : SourceLines :=
  let lines := (Listing.linesByBci anchors).entries
  fun asked bci =>
    if asked = method ∧ bci.toNat < Text.signBound32 then
      ((lines.filter fun (annotated, _) => annotated.toInt ≤ (bci.toNat : Int)).getLast?).map
        Prod.snd
    else none

end CompileLog

import CompileLog.KeyMap
import CompileLog.Listing.Basic
import CompileLog.Listing.Scope

/-!
# Anchors of a listing

Scope comments tie addresses to bytecode indices. The comments of one instruction run from
the innermost frame to the outermost, which is the compiled method itself; so the last one
that can be read gives the anchor.
-/

namespace CompileLog

/-- A bytecode index tied to a native offset. A negative index marks code with no bytecode
of its own. -/
structure Anchor where
  /-- The bytecode index. -/
  bci : Int32
  /-- The offset from the base. -/
  offset : UInt64
  /-- The source line. -/
  line : Option UInt32
  deriving DecidableEq, Inhabited

namespace Listing

/-- The outermost frame that an instruction's comments name. -/
def Line.scope? (line : Line) : Option ScopeFrame :=
  (line.comments.filterMap parseScope?).getLast?

/-- The anchor of a line, if its comments give one. -/
def Line.anchor? (base : UInt64) (line : Line) : Option Anchor :=
  line.scope?.map fun frame => ⟨frame.bci, line.address - base, frame.line⟩

/-- Of consecutive anchors with one offset the last counts. -/
def lastOfEach : List Anchor → List Anchor
  | [] => []
  | [a] => [a]
  | a :: b :: rest => if a.offset = b.offset then lastOfEach (b :: rest)
    else a :: lastOfEach (b :: rest)

/-- The anchors by offset. -/
def anchors (l : Listing) : List Anchor :=
  match l.base? with
  | none => []
  | some base =>
    (lastOfEach (l.lines.filterMap (Line.anchor? base))).mergeSort fun a b => a.offset ≤ b.offset

/-- The source line of each bytecode index; of two anchors the later in the list counts. -/
def linesByBci (anchors : List Anchor) : KeyMap Int32 UInt32 :=
  anchors.foldl (fun lines a =>
    match a.line with
    | some line => lines.insert a.bci line
    | none => lines) .empty

end Listing

end CompileLog

import CompileLog.Analysis.Ranking
import CompileLog.Analysis.Removal
import CompileLog.Console.Arguments
import CompileLog.Console.Page

/-!
# Rankings and what was removed

The pages of rankings, and those of the allocations and monitor operations that the compiler
removed.
-/

namespace CompileLog.Console

/-! ### Rankings -/

/-- Said of a list without entries. -/
def nothing : Page := [.quiet "  none", .lineEnd]

/-- An entry, its value in a column. -/
def rankedLine (width : Nat) (e : Ranking.Entry) : Page :=
  [.strong ("  " ++ flushRight width (number e.value)),
    match e.compileId with
    | some id => .position ("  " ++ taskNumber id)
    | none => .plain "  ",
    .plain (" " ++ e.label), .lineEnd]

/-- The width of the column of values. -/
def valueWidth (entries : List Ranking.Entry) : Nat :=
  ((entries.map fun e => (number e.value).length).max?).getD 1

/-- The first entries of a ranking. -/
def rankingPage (a : Archive) (limit : Nat) (r : Ranking) : Page :=
  let entries := a.top r limit
  heading r.title ++
    if entries.isEmpty then nothing else entries.flatMap (rankedLine (valueWidth entries))

/-- Some rankings, an empty line between them. -/
def rankingsPage (a : Archive) (limit : Nat) (rankings : List Ranking) : Page :=
  [Piece.lineEnd].intercalate (rankings.map (rankingPage a limit))

/-! ### What was removed -/

/-- Where something was removed. -/
def sitePage (site : Option Frame) (compiled : Method) : Page :=
  match site with
  | none => [.plain compiled.display]
  | some frame =>
    [.plain frame.method.display, .quiet (" @" ++ numberOrMark frame.bci)] ++
      if frame.method.display = compiled.display then []
      else [.quiet (" inlined into " ++ compiled.display)]

/-- The line of a removed allocation. -/
def allocationLine (r : AllocationRow) : Page :=
  [.position ("  " ++ taskNumber r.compileId), .strong (" " ++ r.className.getD "?"),
    .plain " in "] ++
    sitePage r.site r.compiled ++ [.lineEnd]

/-- The name of an operation on a monitor. -/
def lockOp : Option LockOp → String
  | some .lock => "lock"
  | some .unlock => "unlock"
  | none => "?"

/-- The line of a removed monitor operation. -/
def lockLine (r : LockRow) : Page :=
  [.position ("  " ++ taskNumber r.compileId), .strong (" " ++ padded 6 (lockOp r.op)),
    .plain (" " ++ padded 14 (r.kind.getD "?"))] ++
    sitePage r.site r.compiled ++ [.lineEnd]

/-- What the compiler removed. -/
def removalPage (a : Archive) : Removal → Page
  | .allocations =>
    heading "Eliminated allocations" ++
      if a.allocationRows.isEmpty then nothing else a.allocationRows.flatMap allocationLine
  | .locks =>
    heading "Elided locks" ++
      if a.lockRows.isEmpty then nothing else a.lockRows.flatMap lockLine

end CompileLog.Console

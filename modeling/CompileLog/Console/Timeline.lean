import CompileLog.Console.Wording
import CompileLog.History.Archive

/-!
# Methods and their histories

The list of compiled methods, and the page of one method: its tasks along the timeline, the one
whose code is in service marked with a star.
-/

namespace CompileLog.Console

/-! ### The list of methods -/

/-- Whether a method is wanted. -/
def isWanted (filter : Option String) (h : MethodHistory) : Bool :=
  filter.all fun needle => Text.contains needle.toList h.method.display.toList

/-- The line of a method. -/
def methodLine (h : MethodHistory) : Page :=
  [.plain (flushRight 4 (number h.tasks.length) ++ " "),
    match h.currentTask? with
    | some t => .position (taskNumber t.compileId)
    | none => .quiet (padded 7 "-"),
    .plain (" " ++ h.method.display)] ++
    (if h.flags.isEmpty then [] else [.suspect " (flagged)"]) ++ [.lineEnd]

/-- The methods wanted. -/
def methodsPage (a : Archive) (filter : Option String) : Page :=
  let wanted := a.allHistories.filter (isWanted filter)
  if wanted.isEmpty then [.suspect "No compiled methods", .lineEnd]
  else wanted.flatMap methodLine

/-! ### The history of a method -/

/-- Whether a task has the number of the task whose code is in service. -/
def isMarked (h : MethodHistory) (t : Task) : Bool :=
  h.currentTask?.any fun c => c.compileId = t.compileId

/-- Whether the code in service is a task's. -/
def marker (h : MethodHistory) (t : Task) : Piece :=
  .live (if isMarked h t then "*" else " ")

/-- What a task compiles, in a column. -/
def kindPiece : CompileKind → Piece
  | .standard => .plain "      "
  | .osr bci => .position (" osr@" ++ numberOrMark bci)
  | .nativeWrapper => .position " native"

/-- The stamp of a task, in a column. -/
def stampPiece (t : Task) : Piece :=
  .quiet (" " ++ flushRight 9 ((t.timelineStamp.map fun s => String.ofList s.display).getD "-"))

/-- The blanks in front of a line that belongs to a task. -/
def indent : String := "           "

/-- A task behind its marker. -/
def taskLine (t : Task) : Page :=
  [.strong (" " ++ taskNumber t.compileId),
    .plain (" " ++ padded 5 (t.compilerName.getD "?") ++ " tier " ++
      padded 2 ((t.level.map fun level => number level.toNat).getD "?")),
    kindPiece t.kind, stampPiece t, .plain " ", taskState t] ++
    (match t.nativeSize with
      | some size => [.plain ("  " ++ number size.toNat ++ " bytes")]
      | none => []) ++
    (if t.tree.nodes.isEmpty then []
    else [.plain ("  " ++ number t.tree.nodes.size ++ " inline decisions")]) ++
    [.lineEnd]

/-- A line on what happened to a task's code. -/
def deoptLine (d : Deopt) : Page := .plain indent :: deopt d ++ [.lineEnd]

/-- A line on what looks wrong about a task. -/
def flagLine (f : TaskFlag) : Page := [.suspect (indent ++ taskFlag f), .lineEnd]

/-- A task of a history, with all that is said about it. -/
def taskPage (h : MethodHistory) (t : Task) : Page :=
  marker h t :: taskLine t ++ t.deopts.flatMap deoptLine ++ t.flags.flatMap flagLine

/-- The history of a method. -/
def historyPage (method : Method) (h : MethodHistory) : Page :=
  heading method.display ++ h.tasks.flatMap (taskPage h) ++
    h.flags.flatMap fun f => [.suspect ("  " ++ historyFlag f), .lineEnd]

end CompileLog.Console

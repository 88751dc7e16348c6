import CompileLog.Console.Page
import CompileLog.Correlation.Basic
import CompileLog.History.Basic
import CompileLog.Markup.Reading
import CompileLog.Text.Quoted

/-!
# Words for what the log tells

How flags, states and decisions are named on a page. Flags and broken ends are spelled with all
that they hold, texts between quotes, so that nothing in a log can pass for a part of the page.
-/

namespace CompileLog.Console

open Text

/-- A name with named parts behind it. -/
def withParts (name : String) (parts : List (String × String)) : String :=
  name ++ " \x7b " ++ ", ".intercalate (parts.map fun p => p.1 ++ ": " ++ p.2) ++ " \x7d"

/-- A flag of a task. -/
def taskFlag : TaskFlag → String
  | .implicitlyOpened => "ImplicitlyOpened"
  | .incomplete => "Incomplete"
  | .structurallyInconsistent node bci callerSize =>
    withParts "StructurallyInconsistent" [("node", "NodeId(" ++ number node ++ ")"),
      ("bci", number bci.toNat), ("parent_size", number callerSize.toNat)]
  | .unreadAttribute tag attr raw =>
    withParts "UnparsedAttribute"
      [("tag", quoted tag), ("attribute", quoted attr), ("raw", quoted raw)]
  | .unresolvedMethod => "UnresolvedMethod"
  | .duplicateCompileId => "DuplicateCompileId"
  | .unbalancedScopes => "UnbalancedScopes"
  | .oversizedListing span => withParts "OversizedAssembly" [("span", number span.toNat)]

/-- A flag of a history. -/
def historyFlag : HistoryFlag → String
  | .outOfOrder earlier later =>
    withParts "OutOfOrderCompileId"
      [("earlier", number earlier.toNat), ("later", number later.toNat)]
  | .duplicate id => "DuplicateCompileId(" ++ number id.toNat ++ ")"

/-- What cut a log short. -/
def truncation : Markup.Truncation → String
  | .unclosed names => "UnclosedElements([" ++ ", ".intercalate (names.map quoted) ++ "])"
  | .unreadable position message =>
    withParts "Unreadable" [("position", number position), ("message", quoted message)]

/-- What happened to code at run time. -/
def deoptKind : DeoptKind → String
  | .uncommonTrap => "UncommonTrap"
  | .deoptimized => "Deoptimized"
  | .madeNotEntrant => "MadeNotEntrant"

/-- How a task ended, and what became of its code. -/
def taskState (t : Task) : Piece :=
  if t.state = .abandoned then .suspect "abandoned"
  else
    match t.outcome with
    | .succeeded => if t.isInvalidated then .suspect "invalidated" else .live "ok"
    | .failed reason => .broken ("failed: " ++ reason.getD "unknown")
    | .pending => .quiet "pending"

/-- Something that happened to code at run time. -/
def deopt (d : Deopt) : Page :=
  [if d.invalidates then .suspect (deoptKind d.kind) else .quiet (deoptKind d.kind)] ++
    (match d.bci with
      | some bci => [.position (" @" ++ number bci.toNat)]
      | none => []) ++
    [.quiet (" reason=" ++ d.reason.getD "-" ++ " action=" ++ d.action.getD "-")]

/-- What the compiler did at a call site. -/
def decision : Decision → Piece
  | .inlined => .live "inlined"
  | .notInlined => .broken "not inlined"
  | .intrinsic => .position "intrinsic"

/-- Where machine code comes from. -/
def mapping : Mapping → Piece
  | .prologue => .quiet "prologue"
  | .unmapped => .quiet "no mapping"
  | .bytecode first last =>
    if first = last then .position ("bci " ++ number first.toNat)
    else .position ("bci " ++ number first.toNat ++ ".." ++ number last.toNat)

end CompileLog.Console

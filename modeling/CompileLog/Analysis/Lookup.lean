import CompileLog.Correlation.Walk
import CompileLog.History.Archive
import CompileLog.Text.Blank

/-!
# Looking things up

What can be asked of an archive about one task or one method. For the machine code of a task
its printed listing is used; where the log prints bytes only, they need a disassembler.
-/

namespace CompileLog

/-- Why a question about a task has no answer. -/
inductive LookupError where
  /-- There is no task with this number. -/
  | unknownTask (id : UInt64)
  /-- The log tells nothing of the task's machine code. -/
  | noNativeCode (id : UInt64)
  /-- The log prints neither instructions nor bytes. -/
  | noInstructions (id : UInt64)
  /-- The bytes could not be disassembled. -/
  | disassembly (error : DisassemblyError)
  deriving DecidableEq

/-- What is said of an error. -/
def LookupError.message : LookupError → String
  | .unknownTask id => "No task with compile id " ++ String.ofList (Text.decimal id.toNat)
  | .noNativeCode id =>
    "Task " ++ String.ofList (Text.decimal id.toNat) ++ " has no emitted code in the log"
  | .noInstructions id =>
    "Task " ++ String.ofList (Text.decimal id.toNat) ++
      " has neither a disassembled listing nor code bytes"
  | .disassembly e => e.message

/-- What helps to read machine code. -/
structure Tools where
  /-- Turns bytes into instructions. -/
  disassembler : Option Disassembler
  /-- Tells source lines; without it the anchors of the log do. -/
  sourceLines : Option SourceLines

/-- No help at all. -/
def Tools.bare : Tools := ⟨none, none⟩

namespace Archive

/-- The methods that were compiled, in order. -/
def methods (a : Archive) : List Method := a.allHistories.map MethodHistory.method

/-- The methods whose printed form contains a text. -/
def findMethods (a : Archive) (needle : String) : List Method :=
  a.methods.filter fun m => Text.contains needle.toList m.display.toList

/-- The task with a number. -/
def findTask (a : Archive) (id : UInt64) : Except LookupError Task :=
  match a.task? id with
  | some t => .ok t
  | none => .error (.unknownTask id)

/-- The task with a number, and its machine code. -/
def findNative (a : Archive) (id : UInt64) : Except LookupError (Task × NativeCode) :=
  match a.findTask id with
  | .error e => .error e
  | .ok t =>
    match t.native with
    | some n => .ok (t, n)
    | none => .error (.noNativeCode id)

end Archive

/-- The end of the code, if its bytes are known. -/
def NativeCode.codeEnd? (n : NativeCode) : Option UInt64 :=
  if n.code.isEmpty then none else some (UInt64.ofNat n.code.length)

/-- The instructions that a disassembled listing prints. -/
def NativeCode.printed (n : NativeCode) : List NativeInstruction :=
  match n.listing with
  | some l => if l.disassembled then l.boundaries n.codeEnd? else []
  | none => []

/-- The instructions that a disassembler finds in the bytes. -/
def Tools.disassemble (tools : Tools) (n : NativeCode) :
    Except LookupError (List NativeInstruction) :=
  match tools.disassembler with
  | some disassembler => (disassembler n.code n.base).mapError .disassembly
  | none => .error (.disassembly .unavailable)

/-- Fills in the source lines of a task's correlation. -/
def Tools.addLines (tools : Tools) (t : Task) (n : NativeCode) (c : Correlation) : Correlation :=
  c.withLines t.method (tools.sourceLines.getD (.ofAnchors t.method n.anchors))

namespace Archive

/-- The instructions of a task. -/
def instructions (a : Archive) (tools : Tools) (id : UInt64) :
    Except LookupError (List NativeInstruction) :=
  match a.findNative id with
  | .error e => .error e
  | .ok (_, n) =>
    if !n.printed.isEmpty then .ok n.printed
    else if n.code.isEmpty then .error (.noInstructions id)
    else tools.disassemble n

/-- The instructions of a task, with the task and its machine code. -/
def prepare (a : Archive) (tools : Tools) (id : UInt64) :
    Except LookupError (List NativeInstruction × Task × NativeCode) :=
  match a.instructions tools id with
  | .error e => .error e
  | .ok instructions => (a.findNative id).map fun (t, n) => (instructions, t, n)

/-- The correlation of a task. -/
def correlation (a : Archive) (tools : Tools) (id : UInt64) : Except LookupError Correlation :=
  (a.prepare tools id).map fun (instructions, t, n) =>
    tools.addLines t n (correlate instructions n.anchors)

/-- Gives finished correlations back to the tasks that they were made for; what could not be
prepared stays an error. -/
def distribute (tools : Tools) :
    List (Except LookupError (List NativeInstruction × Task × NativeCode)) → List Correlation →
      List (Except LookupError Correlation)
  | [], _ => []
  | .error e :: rest, done => .error e :: distribute tools rest done
  | .ok (_, t, n) :: rest, c :: done => .ok (tools.addLines t n c) :: distribute tools rest done
  | .ok (_, t, _) :: rest, [] => .error (.noInstructions t.compileId) :: distribute tools rest []

/-- The correlations of many tasks, shared out among workers, in the order asked for. -/
def correlations (a : Archive) (tools : Tools) (workers : Nat) (ids : List UInt64) :
    List (Except LookupError Correlation) :=
  let prepared := ids.map (a.prepare tools)
  let jobs := prepared.filterMap fun p =>
    match p with
    | .ok (instructions, _, n) => some (instructions, n.anchors)
    | .error _ => none
  distribute tools prepared (correlateAll workers jobs)

end Archive

end CompileLog

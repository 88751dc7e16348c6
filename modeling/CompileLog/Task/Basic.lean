import CompileLog.InlineTree
import CompileLog.Task.Native

/-!
# Compilations

A task is one attempt to compile a method: when it was queued, begun and finished, how it
ended, what the compiler did on the way, the machine code it gave, and what became of that
code at run time. What looks wrong in the log is noted as a flag and costs no task.
-/

namespace CompileLog

/-- How far a task has come. -/
inductive TaskState where
  /-- Begun, and nothing more. -/
  | opened
  /-- Something was said about it. -/
  | accumulating
  /-- It was finished. -/
  | closed
  /-- The log ended before it was finished. -/
  | abandoned
  deriving DecidableEq, Repr, Inhabited

/-- How a compilation ended. -/
inductive Outcome where
  /-- Not yet. -/
  | pending
  /-- With machine code. -/
  | succeeded
  /-- Without. -/
  | failed (reason : Option String)
  deriving DecidableEq, Repr, Inhabited

/-- What is compiled. -/
inductive CompileKind where
  /-- A method from its start. -/
  | standard
  /-- A method from a loop on, entered while it runs. -/
  | osr (bci : Option UInt32)
  /-- A bridge to native code. -/
  | nativeWrapper
  deriving DecidableEq, Repr, Inhabited

/-- How often a method ran before it was compiled. -/
structure Hotness where
  /-- Calls. -/
  invocations : Option UInt64
  /-- Backward jumps. -/
  backedges : Option UInt64
  /-- Interpreted calls. -/
  interpreted : Option UInt64
  deriving DecidableEq, Inhabited

/-- A phase of the compiler. -/
structure Phase where
  name : String
  startedAt : Option Stamp
  finishedAt : Option Stamp
  nodesBefore : Option UInt64
  nodesAfter : Option UInt64
  deriving DecidableEq, Inhabited

/-- A trap that the compiler planted. -/
structure PlantedTrap where
  method : Method
  bci : Option UInt32
  reason : Option String
  action : Option String
  deriving DecidableEq, Inhabited

/-- A frame of the inlining chain that an optimisation was made in. -/
structure Frame where
  method : Method
  bci : Option UInt32
  deriving DecidableEq, Inhabited

/-- An allocation that the compiler removed. -/
structure RemovedAllocation where
  /-- The class, if its id is known. -/
  className : Option String
  /-- The frames, innermost first. -/
  frames : List Frame
  deriving DecidableEq, Inhabited

/-- An operation on a monitor. -/
inductive LockOp where
  | lock
  | unlock
  deriving DecidableEq, Repr, Inhabited

/-- A monitor operation that the compiler removed. -/
structure RemovedLock where
  op : Option LockOp
  /-- Why it was not needed. -/
  kind : Option String
  /-- The frames, innermost first. -/
  frames : List Frame
  deriving DecidableEq, Inhabited

/-- A throw compiled to raise a preallocated exception. -/
structure HotThrow where
  method : Method
  bci : Option UInt32
  reason : Option String
  preallocated : Bool
  deriving DecidableEq, Inhabited

/-- What looks wrong about a task. -/
inductive TaskFlag where
  /-- Something was said about it before it was begun. -/
  | implicitlyOpened
  /-- The log, or the task's element, ended before it was finished. -/
  | incomplete
  /-- A call site lies outside its caller. -/
  | structurallyInconsistent (node : Nat) (bci callerSize : UInt32)
  /-- An attribute could not be read. -/
  | unreadAttribute (tag attr raw : String)
  /-- The log names no method for it. -/
  | unresolvedMethod
  /-- Its number was used before. -/
  | duplicateCompileId
  /-- Parsing of method bodies was not properly nested. -/
  | unbalancedScopes
  /-- Printed bytes spanned too much to be its code and were dropped. -/
  | oversizedListing (span : UInt64)
  deriving DecidableEq

/-- What happened to compiled code at run time. -/
inductive DeoptKind where
  /-- It ran into a trap. -/
  | uncommonTrap
  /-- It was deoptimized. -/
  | deoptimized
  /-- It takes no more calls. -/
  | madeNotEntrant
  deriving DecidableEq, Repr, Inhabited

/-- Something that happened to compiled code at run time. -/
structure Deopt where
  /-- Number of the compilation. -/
  compileId : UInt64
  kind : DeoptKind
  bci : Option UInt32
  /-- The method of the innermost frame. -/
  method : Option Method
  reason : Option String
  action : Option String
  stamp : Option Stamp
  deriving DecidableEq, Inhabited

/-- Whether compiled code goes out of service. A trap whose action is `none` or
`maybe_recompile` leaves it installed. -/
def Deopt.invalidates (d : Deopt) : Bool :=
  match d.kind with
  | .madeNotEntrant | .deoptimized => true
  | .uncommonTrap => d.action ≠ some "none" && d.action ≠ some "maybe_recompile"

/-- One attempt to compile a method. -/
structure Task where
  /-- Its number. -/
  compileId : UInt64
  /-- The method. -/
  method : Method
  /-- The tier. -/
  level : Option UInt8
  /-- The compiler as logged. -/
  compiler : Option String
  kind : CompileKind
  /-- Size of the method in bytecodes. -/
  bytecodeSize : Option UInt32
  hotness : Hotness
  queuedAt : Option Stamp
  startedAt : Option Stamp
  finishedAt : Option Stamp
  state : TaskState
  outcome : Outcome
  /-- Size of the machine code. -/
  nativeSize : Option UInt64
  /-- Bytecodes inlined. -/
  inlinedBytes : Option UInt64
  /-- The thread that compiled it. -/
  thread : Option String
  tree : InlineTree
  phases : List Phase
  plantedTraps : List PlantedTrap
  removedAllocations : List RemovedAllocation
  removedLocks : List RemovedLock
  hotThrows : List HotThrow
  native : Option NativeCode
  deopts : List Deopt
  flags : List TaskFlag
  /-- Number of the reading that recorded it. Task numbers are unique within one only. -/
  pass : Nat
  deriving DecidableEq, Inhabited

/-- Free space in the code cache when a task finished. -/
structure CodeCacheSample where
  compileId : UInt64
  stamp : Option Stamp
  nativeSize : Option UInt64
  freeCodeCache : Option UInt64
  deriving DecidableEq, Inhabited

/-- Facts about the virtual machine that wrote a log. -/
structure LogHeader where
  logVersion : Option String
  process : Option UInt64
  startTimeMillis : Option UInt64
  vmName : Option String
  vmRelease : Option String
  compilerThreads : List String
  deriving DecidableEq, Inhabited

/-- The header of which nothing is known. -/
def LogHeader.unknown : LogHeader := ⟨none, none, none, none, none, []⟩

/-- What is compiled, by the kind that the log names and the index it enters at. The index
alone means an entry by on-stack replacement. -/
def CompileKind.ofLog (kind : Option String) (osrBci : Option UInt32) : CompileKind :=
  let word := kind.map fun k => String.ofList (Text.lowerAscii k.toList)
  if word = some "osr" then .osr osrBci
  else if word = some "c2n" then .nativeWrapper
  else if osrBci.isSome then .osr osrBci
  else .standard

/-- Whether the code is entered by on-stack replacement. -/
def CompileKind.isOsr : CompileKind → Bool
  | .osr _ => true
  | _ => false

namespace Task

/-- A task of which only the number and the method are known. -/
def new (compileId : UInt64) (method : Method) : Task where
  compileId
  method
  level := none
  compiler := none
  kind := .standard
  bytecodeSize := none
  hotness := ⟨none, none, none⟩
  queuedAt := none
  startedAt := none
  finishedAt := none
  state := .opened
  outcome := .pending
  nativeSize := none
  inlinedBytes := none
  thread := none
  tree := .empty method none
  phases := []
  plantedTraps := []
  removedAllocations := []
  removedLocks := []
  hotThrows := []
  native := none
  deopts := []
  flags := []
  pass := 0

/-- The stamp that places a task on its method's timeline. -/
def timelineStamp (t : Task) : Option Stamp :=
  t.startedAt.or ((t.native.bind NativeCode.emittedAt).or t.queuedAt)

/-- The compiler's name; where the log leaves it out, told by the tier. -/
def compilerName (t : Task) : Option String :=
  (t.compiler.or (t.native.bind NativeCode.compiler)).or
    (match t.level with
    | some level =>
      if 1 ≤ level ∧ level ≤ 3 then some "c1" else if level = 4 then some "c2" else none
    | none => none)

/-- Whether the task gave machine code. -/
def succeeded (t : Task) : Bool := t.state = .closed && t.outcome = .succeeded

/-- Whether its code went out of service. -/
def isInvalidated (t : Task) : Bool := t.deopts.any Deopt.invalidates

/-- Whether the log ended before the task. -/
def isAbandoned (t : Task) : Bool := t.state = .abandoned

/-- Whether all call sites lie inside their callers. -/
def isConsistent (t : Task) : Bool :=
  !t.flags.any fun
    | .structurallyInconsistent .. => true
    | _ => false

/-- Microseconds between queue and start. -/
def queueDelay (t : Task) : Option Nat :=
  match t.startedAt, t.queuedAt with
  | some started, some queued => some (started.since queued)
  | _, _ => none

/-- Microseconds between start and end. -/
def duration (t : Task) : Option Nat :=
  match t.finishedAt, t.startedAt with
  | some finished, some started => some (finished.since started)
  | _, _ => none

/-- Notes a flag, once. -/
def flag (t : Task) (f : TaskFlag) : Task :=
  if f ∈ t.flags then t else { t with flags := t.flags ++ [f] }

/-- Takes over a record of installed code. What an earlier record or listing gave stays. -/
def attachNative (t : Task) (native : NativeCode) : Task :=
  { t with
    nativeSize := t.nativeSize.or native.size
    native := some (match t.native with
      | some before => native.inherit before
      | none => native) }

/-- Adds a printed listing to the code. One that spans too many bytes is dropped, and the
task flagged. -/
def attachListing (t : Task) (l : Listing) : Task :=
  match (t.native.getD .unknown).attachListing l with
  | .ok native => { t with native := some native }
  | .error e => t.flag (.oversizedListing (UInt64.ofNat e.span))

end Task

end CompileLog

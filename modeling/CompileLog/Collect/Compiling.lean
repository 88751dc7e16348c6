import CompileLog.Collect.Dictionary
import CompileLog.Event.Basic
import CompileLog.Task.Basic

/-!
# The task whose element is open

Between the start of a task and its end the log tells what the compiler does: the method
bodies that it parses, its decisions at call sites, what it removes, and its phases. Each
event changes the task under way; none fails.

Method bodies nest. A body belongs to the newest decision in the body around it that is for
the same method and has no body yet, so the inlining tree grows under the right call site
even where a method inlines itself.
-/

namespace CompileLog.Collect

/-- A method body that is being parsed. -/
structure MethodBody where
  /-- The call site whose callee this is; none for the compiled method itself. -/
  node : Option Nat
  /-- The bytecode index reached. -/
  bci : Option UInt32
  /-- The decisions made in it that have no body yet, newest first, each with the number of
  its callee. -/
  decisions : List (Nat × Option UInt64)

/-- A call whose decision has not been told yet. -/
structure PendingCall where
  /-- Number of the callee. -/
  method : Option UInt64
  /-- How often the call was made. -/
  count : Option UInt64

/-- A removed operation whose frames are still being told. -/
inductive OpenRecord where
  | allocation (record : RemovedAllocation)
  | lock (record : RemovedLock)

/-- The record with one more frame. -/
def OpenRecord.addFrame (f : Frame) : OpenRecord → OpenRecord
  | .allocation r => .allocation { r with frames := r.frames ++ [f] }
  | .lock r => .lock { r with frames := r.frames ++ [f] }

/-- A task under way. -/
structure Compiling where
  /-- The task so far. -/
  task : Task
  /-- What its numbers stand for. -/
  names : Dictionary
  /-- The open method bodies, innermost first. -/
  bodies : List MethodBody
  /-- The call reached. -/
  call : Option PendingCall
  /-- The removed operation being told. -/
  record : Option OpenRecord
  /-- Positions of the open phases, innermost first. -/
  openPhases : List Nat
  /-- Free space in the code cache, as told last. -/
  freeCodeCache : Option UInt64

namespace Compiling

/-- A task that has just begun. -/
def start (task : Task) : Compiling := ⟨task, .empty, [], none, none, [], none⟩

/-- Changes the task. -/
def onTask (c : Compiling) (f : Task → Task) : Compiling := { c with task := f c.task }

/-- Notes that something was said about the task. -/
def touch (c : Compiling) : Compiling :=
  c.onTask fun t => if t.state = .opened then { t with state := .accumulating } else t

/-- The bytecode index reached in the innermost body. -/
def bci (c : Compiling) : Option UInt32 := c.bodies.head?.bind MethodBody.bci

/-- The call site whose callee is the innermost body. -/
def node (c : Compiling) : Option Nat := c.bodies.head?.bind MethodBody.node

/-- The method of the innermost body. -/
def method (c : Compiling) : Method :=
  ((c.node.bind c.task.tree.node?).map fun n => n.site.callee).getD c.task.method

/-- The site of the pending call, once it is decided. -/
def callSite (c : Compiling) (decision : Decision) (reason : Option String) : CallSite :=
  let callee := c.call.bind PendingCall.method
  { callee := c.names.methodOf callee
    bci := c.bci
    decision
    reason
    detail := none
    calleeSize := c.names.bytesOf callee
    invocationCount := c.call.bind PendingCall.count }

/-- Adds a decision on the pending call to the tree. -/
def decide (c : Compiling) (decision : Decision) (reason : Option String) : Compiling :=
  let c := c.touch
  let (tree, id) := c.task.tree.add c.node (c.callSite decision reason)
  { c with
    task := { c.task with tree }
    bodies :=
      match c.bodies with
      | [] => []
      | body :: outer =>
        { body with decisions := (id, c.call.bind PendingCall.method) :: body.decisions } ::
          outer }

/-- The newest decision for a callee, and the decisions without it. -/
def takeDecision? (callee : Option UInt64) :
    List (Nat × Option UInt64) → Option (Nat × List (Nat × Option UInt64))
  | [] => none
  | d :: older =>
    if d.2 = callee then some (d.1, older)
    else (takeDecision? callee older).map fun (id, rest) => (id, d :: rest)

/-- Opens a method body. The first is the compiled method's own; any other is that of the
newest decision for it, or where there is none a part of the body around it. -/
def openBody (c : Compiling) (method : Option UInt64) : Compiling :=
  let c := c.touch
  match c.bodies with
  | [] =>
    let c :=
      match c.names.known? method with
      | some known => c.onTask fun t =>
          { t with tree := t.tree.withRoot t.method (known.bytes.or t.bytecodeSize) }
      | none => c
    { c with bodies := [⟨none, none, []⟩] }
  | body :: outer =>
    match takeDecision? method body.decisions with
    | some (id, decisions) =>
      { c with bodies := ⟨some id, none, []⟩ :: { body with decisions } :: outer }
    | none => { c with bodies := ⟨body.node, none, []⟩ :: body :: outer }

/-- Closes the innermost method body. -/
def closeBody (c : Compiling) : Compiling :=
  match c.bodies with
  | [] => { c.onTask (·.flag .unbalancedScopes) with call := none }
  | _ :: outer => { c with bodies := outer, call := none }

/-- Goes to a bytecode of the innermost body. -/
def reach (c : Compiling) (bci : Option UInt32) : Compiling :=
  { c with
    bodies :=
      match c.bodies with
      | [] => []
      | body :: outer => { body with bci } :: outer
    call := none }

/-- Adds the removed operation being told to the task. -/
def closeRecord (c : Compiling) : Compiling :=
  match c.record with
  | some (.allocation r) =>
    { c with
      task := { c.task with removedAllocations := c.task.removedAllocations ++ [r] }
      record := none }
  | some (.lock r) =>
    { c with
      task := { c.task with removedLocks := c.task.removedLocks ++ [r] }
      record := none }
  | none => c

/-- Begins to tell a removed operation. Frames follow only inside an element. -/
def openRecord (c : Compiling) (record : OpenRecord) (shape : Shape) : Compiling :=
  let c := { c.touch.closeRecord with record := some record }
  if shape = .opening then c else c.closeRecord

/-- Adds a frame to the removed operation being told. -/
def addFrame (c : Compiling) (bci : Option UInt32) (method : Option Method)
    (methodId : Option UInt64) : Compiling :=
  { c with record := c.record.map (.addFrame ⟨method.getD (c.names.methodOf methodId), bci⟩) }

/-- Begins a phase. -/
def openPhase (c : Compiling) (facts : PhaseFacts) : Compiling :=
  let c := c.touch
  let phase : Phase := ⟨facts.name.getD "", facts.stamp, none, facts.nodes, none⟩
  { c with
    task := { c.task with phases := c.task.phases ++ [phase] }
    openPhases := c.task.phases.length :: c.openPhases }

/-- Ends the innermost phase. -/
def closePhase (c : Compiling) (facts : PhaseFacts) : Compiling :=
  match c.openPhases with
  | [] => c
  | position :: outer =>
    let close (p : Phase) : Phase := { p with finishedAt := facts.stamp, nodesAfter := facts.nodes }
    { c with
      task := { c.task with phases := c.task.phases.modify position close }
      openPhases := outer }

/-- Notes a trap that the compiler plants where it is. -/
def plantTrap (c : Compiling) (bci : Option UInt32) (reason action : Option String) : Compiling :=
  let trap : PlantedTrap := ⟨c.method, bci.or c.bci, reason, action⟩
  c.touch.onTask fun t => { t with plantedTraps := t.plantedTraps ++ [trap] }

/-- Notes a throw of a preallocated exception. -/
def addHotThrow (c : Compiling) (preallocated : Option Bool) (reason : Option String) :
    Compiling :=
  let hotThrow : HotThrow := ⟨c.method, c.bci, reason, preallocated.getD false⟩
  c.touch.onTask fun t => { t with hotThrows := t.hotThrows ++ [hotThrow] }

/-- Takes in what an event says about the task under way. -/
def take (c : Compiling) (shape : Shape) : Event → Compiling
  | .typeDef (some id) (some name) =>
    { c with names := { c.names with types := c.names.types.insert id name } }
  | .klassDef (some id) (some name) =>
    { c with names := { c.names with klasses := c.names.klasses.insert id name } }
  | .methodDef (some id) holder name returnType arguments bytes _ =>
    { c with names := c.names.defineMethod id holder name returnType arguments bytes }
  | .parseOpen method _ => c.openBody method
  | .close .parseOpen => c.closeBody
  | .bytecode _ bci => c.reach bci
  | .call method count _ => { c with call := some ⟨method, count⟩ }
  | .inlineSuccess reason => c.decide .inlined reason
  | .inlineFail reason => c.decide .notInlined reason
  | .intrinsic name => c.decide .intrinsic name
  | .uncommonTrap none bci reason action _ => c.plantTrap bci reason action
  | .eliminateAllocation klass =>
    c.openRecord (.allocation ⟨klass.bind c.names.klasses.get?, []⟩) shape
  | .eliminateLock lock kind =>
    let op := lock.map fun locks => if locks then LockOp.lock else LockOp.unlock
    c.openRecord (.lock ⟨op, kind, []⟩) shape
  | .close .eliminateAllocation => c.closeRecord
  | .close .eliminateLock => c.closeRecord
  | .hotThrow preallocated reason => c.addHotThrow preallocated reason
  | .phase facts => c.openPhase facts
  | .phaseDone facts => c.closePhase facts
  | .failure reason _ => c.touch.onTask fun t => { t with outcome := .failed reason }
  | .codeCache free _ => { c with freeCodeCache := free }
  | _ => c

end Compiling

/-- Whether an event means something only inside a task. -/
def isTaskScoped : Event → Bool
  | .typeDef .. | .klassDef .. | .methodDef .. | .parseOpen .. | .bytecode .. | .call .. => true
  | .inlineSuccess .. | .inlineFail .. | .intrinsic .. => true
  | .eliminateAllocation .. | .eliminateLock .. | .hotThrow .. => true
  | .phase .. | .failure .. => true
  | _ => false

end CompileLog.Collect

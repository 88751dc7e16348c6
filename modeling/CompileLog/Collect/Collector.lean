import CompileLog.Collect.Compiling
import CompileLog.Collect.Item
import CompileLog.Listing.Parser
import CompileLog.Listing.Split

/-!
# Collecting tasks

A collector takes the events of a log one by one and gathers what they say about each task.
The task whose element is open is under way. Other tasks of which something was said, such
as that they are queued, wait for their start, and a start takes over the task that waits
under its number. A task is handed over when it is finished, and also when its element, its
thread or the log ends before; it is then abandoned. What is complete is handed over at
once, and a collector keeps no more of a finished task than its number.
-/

namespace CompileLog.Collect

/-- The state of a collector. -/
structure Collector where
  /-- Whether listings are kept once their bytes and anchors are taken from them. -/
  retainListings : Bool
  /-- The task under way. -/
  active : Option Compiling
  /-- The tasks that have not begun. -/
  waiting : KeyMap UInt64 Task
  /-- The numbers of the tasks handed over. -/
  handedOver : KeyMap UInt64 Unit
  /-- The tasks of the installed code at each address. -/
  addresses : KeyMap UInt64 UInt64
  /-- A trap hit at run time whose frames are still being told. -/
  trap : Option Deopt
  /-- The machine code printed since the last listing was closed. -/
  printed : String
  /-- The compiler thread that writes. -/
  thread : Option String
  /-- The virtual machine. -/
  header : LogHeader
  /-- What was met. -/
  counts : Counts

namespace Collector

/-- A collector that has seen nothing. -/
def start (retainListings : Bool) : Collector :=
  ⟨retainListings, none, ∅, ∅, ∅, none, "", none, .unknown, .zero⟩

/-- Changes the counts. -/
def count (c : Collector) (f : Counts → Counts) : Collector := { c with counts := f c.counts }

/-- Counts an event that is out of place. -/
def countStray (c : Collector) : Collector := c.count fun n => { n with stray := n.stray + 1 }

/-- Whether the task with a number has been handed over. -/
def isHandedOver (c : Collector) (id : UInt64) : Bool := (c.handedOver.get? id).isSome

/-- Number of tasks not handed over. -/
def openTasks (c : Collector) : Nat := c.waiting.size + if c.active.isSome then 1 else 0

/-- The task under way, if it has this number. -/
def activeWith? (c : Collector) (id : UInt64) : Option Compiling :=
  c.active.filter fun a => decide (a.task.compileId = id)

/-- The task with a number that is not handed over. -/
def openTask? (c : Collector) (id : UInt64) : Option Task :=
  ((c.activeWith? id).map Compiling.task).or (c.waiting.get? id)

/-- Puts back a changed task that is not handed over. -/
def putTask (c : Collector) (id : UInt64) (t : Task) : Collector :=
  match c.activeWith? id with
  | some a => { c with active := some { a with task := t } }
  | none => { c with waiting := c.waiting.insert id t }

/-- A task of which something is said before it begins. -/
def implicitTask (id : UInt64) (method : Option Method) : Task :=
  { Task.new id (method.getD .unresolved) with
    state := .accumulating
    flags := [.implicitlyOpened] }

/-- Changes the task with a number; one that was never met begins to wait. -/
def onTask (c : Collector) (id : UInt64) (method : Option Method) (f : Task → Task) : Collector :=
  match c.openTask? id with
  | some t => c.putTask id (f t)
  | none =>
    (c.count fun n => { n with implicit := n.implicit + 1 }).putTask id
      (f (implicitTask id method))

/-- A task with all call sites that lie outside their callers flagged. -/
def flagMisplaced (t : Task) : Task :=
  t.tree.validate.foldl
    (fun t m => t.flag (.structurallyInconsistent m.node m.bci m.callerSize)) t

/-- Hands over a task. -/
def handOver (c : Collector) (t : Task) : Collector × List Item :=
  let c := c.count fun n =>
    if t.state = .abandoned then { n with abandoned := n.abandoned + 1 }
    else { n with closed := n.closed + 1 }
  ({ c with handedOver := c.handedOver.insert t.compileId () }, [.task (flagMisplaced t)])

/-- A task that was cut short. -/
def cutShort (t : Task) : Task := { t with state := TaskState.abandoned }.flag .incomplete

/-- Hands over the task under way, if there is one, as abandoned. -/
def abandonActive (c : Collector) : Collector × List Item :=
  match c.active with
  | some a => { c with active := none }.handOver (cutShort a.task)
  | none => (c, [])

/-- A task with what is said where it is queued or begins. -/
def applyFacts (facts : TaskFacts) (t : Task) : Task :=
  { t with
    method := if t.method.isUnresolved then facts.method.getD t.method else t.method
    bytecodeSize := facts.bytes.or t.bytecodeSize
    level := facts.level.or t.level
    kind :=
      if facts.compileKind.isSome || facts.osrBci.isSome then
        CompileKind.ofLog facts.compileKind facts.osrBci
      else t.kind
    hotness :=
      ⟨facts.count.or t.hotness.invocations, facts.backedgeCount.or t.hotness.backedges,
        facts.interpreterCount.or t.hotness.interpreted⟩ }

/-- A task with flags added. -/
def withFlags (flags : List TaskFlag) (t : Task) : Task := flags.foldl Task.flag t

/-- A task with a flag if its method is not known. -/
def flagUnresolved (t : Task) : Task :=
  if t.method.isUnresolved then t.flag .unresolvedMethod else t

/-- A task is queued. One that was handed over stays as it is. -/
def queueTask (c : Collector) (facts : TaskFacts) (flags : List TaskFlag) : Collector :=
  match facts.compileId with
  | none => c.countStray
  | some id =>
    if c.isHandedOver id then c
    else
      c.onTask id facts.method fun t =>
        let t := applyFacts facts t
        withFlags flags { t with queuedAt := t.queuedAt.or facts.stamp }

/-- Stands for the number of a task that begins without one. -/
def noId : UInt64 := 0xFFFFFFFFFFFFFFFF

/-- The task that begins under a number: the one that waits under it, else a new one. -/
def takeWaiting (c : Collector) (id : UInt64) : Collector × Task :=
  match c.waiting.get? id with
  | some t =>
    ({ c with waiting := c.waiting.erase id },
      { t with flags := t.flags.filter fun f => f ≠ .implicitlyOpened })
  | none =>
    let t := Task.new id .unresolved
    if c.isHandedOver id then
      (c.count fun n => { n with duplicateStarts := n.duplicateStarts + 1 },
        t.flag .duplicateCompileId)
    else (c, t)

/-- A task with what is said where it begins. -/
def beginTask (facts : TaskFacts) (thread : Option String) (flags : List TaskFlag) (t : Task) :
    Task :=
  let t := applyFacts facts { t with method := facts.method.getD t.method }
  let t := flagUnresolved { t with startedAt := facts.stamp.or t.startedAt, thread }
  withFlags flags { t with tree := t.tree.withRoot t.method t.bytecodeSize }

/-- A task begins; one that is under way is abandoned. -/
def startTask (c : Collector) (facts : TaskFacts) (flags : List TaskFlag) :
    Collector × List Item :=
  let (c, abandoned) := c.abandonActive
  let c := if facts.compileId.isNone then c.countStray else c
  let (c, t) := c.takeWaiting (facts.compileId.getD noId)
  ({ c with active := some (.start (beginTask facts c.thread flags t)) }, abandoned)

/-- How a task ends that was told to have succeeded or failed. -/
def finalOutcome (success : Option Bool) : Outcome → Outcome
  | .failed reason => .failed reason
  | _ => if success = some false then .failed none else .succeeded

/-- The task under way is finished. -/
def finishTask (c : Collector) (success : Option Bool) (nativeSize inlinedBytes : Option UInt64)
    (stamp : Option Stamp) (flags : List TaskFlag) : Collector × List Item :=
  match c.active with
  | none => (c.countStray, [])
  | some a =>
    let t := withFlags flags a.task
    let t := { t with
      finishedAt := stamp
      nativeSize := nativeSize.or t.nativeSize
      inlinedBytes
      outcome := finalOutcome success t.outcome
      state := .closed }
    let t := if a.bodies.isEmpty then t else t.flag .unbalancedScopes
    let sample : List Item :=
      if a.freeCodeCache.isSome then
        [.codeCache ⟨t.compileId, stamp, nativeSize, a.freeCodeCache⟩]
      else []
    let (c, handed) := { c with active := none }.handOver t
    (c, sample ++ handed)

/-- Installed code as the log tells of it. -/
def nativeOf (facts : NativeFacts) : NativeCode :=
  { NativeCode.unknown with
    compiler := facts.compiler
    emittedAt := facts.stamp
    address := facts.address
    entry := facts.entry
    size := facts.size
    instsOffset := facts.instsOffset
    base := (facts.address.map fun a => a + facts.instsOffset.getD 0).getD 0 }

/-- A task for a bridge to native code, of which the log tells nothing else. -/
def wrapperTask (id : UInt64) (facts : NativeFacts) (flags : List TaskFlag) : Task :=
  withFlags flags <| flagUnresolved
    { Task.new id (facts.method.getD .unresolved) with
      kind := .nativeWrapper
      level := facts.level
      compiler := facts.compiler
      nativeSize := facts.size
      native := some (nativeOf facts)
      state := .closed
      outcome := .succeeded }

/-- A task with what is said of its installed code. -/
def install (facts : NativeFacts) (flags : List TaskFlag) (t : Task) : Task :=
  let t :=
    match t.method.isUnresolved, facts.method with
    | true, some method => { t with method, tree := t.tree.withRoot method t.bytecodeSize }
    | _, _ => t
  let kind := CompileKind.ofLog facts.compileKind none
  let t := { t with
    level := t.level.or facts.level
    compiler := t.compiler.or facts.compiler
    kind := if kind = CompileKind.standard then t.kind else kind }
  withFlags flags (t.attachNative (nativeOf facts))

/-- Code is installed. -/
def installCode (c : Collector) (facts : NativeFacts) (flags : List TaskFlag) :
    Collector × List Item :=
  match facts.compileId with
  | none => (c.countStray, [])
  | some id =>
    let c :=
      match facts.address with
      | some address => { c with addresses := c.addresses.insert address id }
      | none => c
    if c.isHandedOver id then (c, [.lateNative id (nativeOf facts)])
    else if CompileKind.ofLog facts.compileKind none = .nativeWrapper ∧
        (c.openTask? id).isNone then
      c.handOver (wrapperTask id facts flags)
    else (c.onTask id facts.method (install facts flags), [])

/-- A task with a printed listing added to its code. -/
def addListing (retain : Bool) (l : Listing) (t : Task) : Task :=
  let t := t.attachListing l
  if retain then t
  else { t with native := t.native.map fun n => { n with listing := none } }

/-- Gives a printed listing to its task: the one that it names, or the one whose code is
installed at its address. -/
def placeListing (c : Collector) (l : Listing) : Collector × List Item :=
  match l.compileId.or (l.codeAddress.bind c.addresses.get?) with
  | none =>
    (c.count fun n => { n with orphanListings := n.orphanListings + 1 }, [.orphanListing l])
  | some id =>
    match c.openTask? id with
    | some t => (c.putTask id (addListing c.retainListings l t), [])
    | none => (c, [.lateListing id l])

/-- Does one thing after another and gathers what is handed over. -/
def each {α : Type} (f : Collector → α → Collector × List Item) (c : Collector) :
    List α → Collector × List Item
  | [] => (c, [])
  | a :: rest =>
    let (c, first) := f c a
    let (c, later) := c.each f rest
    (c, first ++ later)

/-- The listings in a printed text that hold an instruction. -/
def listingsOf (text : String) : List Listing :=
  ((Listing.split text.toList).map Listing.parse).filter fun l => !l.lines.isEmpty

/-- Reads the machine code printed so far. -/
def flush (c : Collector) : Collector × List Item :=
  { c with printed := "" }.each placeListing (listingsOf c.printed)

/-- Takes in what an event says about the task under way. Without one, an event that needs
one is out of place. -/
def takeInTask (c : Collector) (shape : Shape) (e : Event) (flags : List TaskFlag) : Collector :=
  match c.active with
  | some a =>
    { c with active := some ({ a with task := withFlags flags a.task }.take shape e) }
  | none => if isTaskScoped e then c.countStray else c

/-- A trap is hit at run time. If its frames are still to be told it is kept until then. -/
def hitTrap (c : Collector) (shape : Shape) (d : Deopt) : Collector × List Item :=
  if shape = .opening then ({ c with trap := some d }, []) else (c, [.deopt d])

/-- A frame is told: of a trap hit at run time, of which the innermost counts, or of the
task under way. -/
def takeFrame (c : Collector) (bci : Option UInt32) (method : Option Method)
    (methodId : Option UInt64) : Collector :=
  match c.trap with
  | some d =>
    if d.method.isSome then c
    else { c with trap := some { d with bci := d.bci.or bci, method } }
  | none => { c with active := c.active.map fun a => a.addFrame bci method methodId }

/-- A fact about the virtual machine. -/
def takeHeader (h : LogHeader) (field text : String) : LogHeader :=
  let trimmed := String.ofList (Text.trim text.toList)
  if field = "release" then { h with vmRelease := some trimmed }
  else if field = "name" then { h with vmName := some trimmed }
  else h

/-- The header with a compiler thread, noted once. -/
def addThread (h : LogHeader) (name : Option String) : LogHeader :=
  match name with
  | some name =>
    if name ∈ h.compilerThreads then h
    else { h with compilerThreads := h.compilerThreads ++ [name] }
  | none => h

/-- Takes in an event. The flags tell of its attributes that could not be read. -/
def take (c : Collector) (shape : Shape) (flags : List TaskFlag) :
    Event → Collector × List Item
  | .logStart version process timeMs =>
    ({ c with header := { c.header with
        logVersion := version, process, startTimeMillis := timeMs } }, [])
  | .headerText field text => ({ c with header := takeHeader c.header field text }, [])
  | .compilerThread name _ _ =>
    ({ c with header := addThread c.header name, thread := name }, [])
  | .threadLog _ => ({ c with thread := none }, [])
  | .close .threadLog =>
    let (c, items) := c.abandonActive
    ({ c with thread := none }, items)
  | .taskQueued facts => (c.queueTask facts flags, [])
  | .taskStart facts => c.startTask facts flags
  | .taskDone success nativeSize inlinedBytes stamp =>
    c.finishTask success nativeSize inlinedBytes stamp flags
  | .close .taskStart => c.abandonActive
  | .nmethod facts => c.installCode facts flags
  | .uncommonTrap (some id) bci reason action stamp =>
    c.hitTrap shape ⟨id, .uncommonTrap, bci, none, reason, action, stamp⟩
  | .jvms bci method methodId => (c.takeFrame bci method methodId, [])
  | .close .uncommonTrap =>
    match c.trap with
    | some d => ({ c with trap := none }, [.deopt d])
    | none => (c, [])
  | .deoptimized (some id) reason _ stamp =>
    (c, [.deopt ⟨id, .deoptimized, none, none, reason, none, stamp⟩])
  | .madeNotEntrant (some id) _ _ stamp =>
    (c, [.deopt ⟨id, .madeNotEntrant, none, none, none, none, stamp⟩])
  | .assemblyText text => ({ c with printed := c.printed ++ text ++ "\n" }, [])
  | .close .printNmethod => c.flush
  | .unknown _ _ closing =>
    (if closing then c else c.count fun n => { n with unknown := n.unknown + 1 }, [])
  | event => (c.takeInTask shape event flags, [])

/-- Whether an event only adds to the machine code printed. -/
def isPrinting : Event → Bool
  | .assemblyText _ => true
  | _ => false

/-- Reads the machine code printed so far if an event puts an end to it. -/
def flushBefore (c : Collector) (e : Event) : Collector × List Item :=
  if isPrinting e || c.printed.isEmpty then (c, []) else c.flush

/-- The flags that tell of an event's attributes that could not be read. -/
def unreadFlags (e : LogEvent) : List TaskFlag :=
  e.unread.map fun u => .unreadAttribute e.tag u.name u.raw

/-- Takes in the next event of a log. -/
def accept (c : Collector) (e : LogEvent) : Collector × List Item :=
  let (c, flushed) := c.flushBefore e.event
  let c := c.count fun n => { n with unreadAttributes := n.unreadAttributes + e.unread.length }
  let (c, items) := c.take e.shape (unreadFlags e) e.event
  (c, flushed ++ items)

/-- Takes in the next events of a log. -/
def acceptAll (c : Collector) (events : List LogEvent) : Collector × List Item :=
  c.each accept events

/-- Hands over the trap whose frames are still being told. -/
def releaseTrap (c : Collector) : Collector × List Item :=
  match c.trap with
  | some d => ({ c with trap := none }, [.deopt d])
  | none => (c, [])

/-- Hands over the tasks that never began, in the order of their numbers. -/
def abandonWaiting (c : Collector) : Collector × List Item :=
  { c with waiting := ∅ }.each (fun c t => c.handOver (cutShort t))
    (c.waiting.entries.map Prod.snd)

/-- The log ends: what is still open is handed over. -/
def finish (c : Collector) : Collector × List Item :=
  let (c, listings) := c.flush
  let (c, trap) := c.releaseTrap
  let (c, active) := c.abandonActive
  let (c, waiting) := c.abandonWaiting
  (c, listings ++ trap ++ active ++ waiting)

/-- All that a log yields, with the collector that read it. -/
def collect (retainListings : Bool) (events : List LogEvent) : Collector × List Item :=
  let (c, items) := (start retainListings).acceptAll events
  let (c, last) := c.finish
  (c, items ++ last)

end Collector

end CompileLog.Collect

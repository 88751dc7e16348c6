import CompileLog.Search
import CompileLog.Task.Basic

/-!
# The history of a method

A method may be compiled many times: in higher tiers, after its code went out of service,
or entered at a loop. Its history holds all these tasks on one timeline, and knows which of
them gave the code that is in service. That is the last standard compilation that succeeded
and was not invalidated; only where there is none, the last other one.
-/

namespace CompileLog

/-- Whether one task stands before another on a timeline, or at the same place. Tasks
without a stamp come first, and tasks with one stamp in the order of their numbers. -/
def Task.notAfter (a b : Task) : Bool :=
  match a.timelineStamp, b.timelineStamp with
  | none, none => a.compileId ≤ b.compileId
  | none, some _ => true
  | some _, none => false
  | some s, some t => s.micros < t.micros || (s = t && a.compileId ≤ b.compileId)

/-- Whether a task's code may be in service. -/
def Task.isLive (t : Task) : Bool := t.succeeded && !t.isInvalidated

/-- Whether a task is the one with this number in this reading. -/
def Task.isNamed (id : UInt64) (pass : Nat) (t : Task) : Bool :=
  t.compileId = id && t.pass = pass

/-- What looks wrong about a history. -/
inductive HistoryFlag where
  /-- The later task has the greater number but stands before the earlier. -/
  | outOfOrder (earlier later : UInt64)
  /-- The number was used before. -/
  | duplicate (id : UInt64)
  deriving DecidableEq

/-- All compilations of a method. -/
structure MethodHistory where
  /-- The method. -/
  method : Method
  /-- Its tasks along the timeline. -/
  tasks : List Task
  /-- Position of the task whose code is in service. -/
  current : Option Nat
  /-- What looks wrong. -/
  flags : List HistoryFlag
  deriving DecidableEq

namespace MethodHistory

/-- The history of a method that was not compiled yet. -/
def empty (method : Method) : MethodHistory := ⟨method, [], none, []⟩

/-- The first task with a number. -/
def task? (h : MethodHistory) (id : UInt64) : Option Task :=
  h.tasks.find? fun t => t.compileId = id

/-- The task with a number in one reading. -/
def taskIn? (h : MethodHistory) (id : UInt64) (pass : Nat) : Option Task :=
  h.tasks.find? (Task.isNamed id pass)

/-- The task whose code is in service. -/
def currentTask? (h : MethodHistory) : Option Task := h.current.bind fun i => h.tasks[i]?

/-- The last task that was finished, with or without success. -/
def latestClosed? (h : MethodHistory) : Option Task :=
  h.tasks.reverse.find? fun t => t.state = .closed

/-- Notes a flag, once. -/
def flag (h : MethodHistory) (f : HistoryFlag) : MethodHistory :=
  if f ∈ h.flags then h else { h with flags := h.flags ++ [f] }

/-- The position at which a task joins the timeline: behind all that do not come after it. -/
def positionOf (h : MethodHistory) (t : Task) : Nat :=
  turningPoint (fun i => h.tasks[i]?.any fun o => o.notAfter t) h.tasks.length

/-- Notes that a new task and the task before it are in the wrong order of numbers. -/
def flagBefore (h : MethodHistory) (before : Option Task) (t : Task) : MethodHistory :=
  match before with
  | some o =>
    if o.timelineStamp.isSome && t.compileId < o.compileId then
      h.flag (.outOfOrder t.compileId o.compileId)
    else h
  | none => h

/-- Notes that a new task and the task behind it are in the wrong order of numbers. -/
def flagBehind (h : MethodHistory) (behind : Option Task) (t : Task) : MethodHistory :=
  match behind with
  | some o =>
    if o.compileId < t.compileId then h.flag (.outOfOrder o.compileId t.compileId) else h
  | none => h

/-- Whether the task at a position is a standard compilation. -/
def isStandardAt (h : MethodHistory) (i : Nat) : Bool :=
  h.tasks[i]?.any fun t => t.kind = .standard

/-- Whether the task at one position comes before the one at another for the code in
service: a standard compilation before another, then the later before the earlier. -/
def outranks (h : MethodHistory) (i j : Nat) : Bool :=
  (h.isStandardAt i && !h.isStandardAt j) || (h.isStandardAt i == h.isStandardAt j && j < i)

/-- Puts the task at a position into service if it may be and comes before the present
choice. -/
def promote (h : MethodHistory) (i : Nat) : MethodHistory :=
  if h.tasks[i]?.any Task.isLive && h.current.all (h.outranks i) then
    { h with current := some i }
  else h

/-- Adds a task to the timeline. A duplicate is one whose number was used before. -/
def insert (h : MethodHistory) (t : Task) (duplicate : Bool) : MethodHistory :=
  let i := h.positionOf t
  let before := if i = 0 then none else h.tasks[i - 1]?
  let behind := h.tasks[i]?
  let h := { h with
    tasks := h.tasks.insertIdx i t
    current := h.current.map fun c => if i ≤ c then c + 1 else c }
  let h := if duplicate then h.flag (.duplicate t.compileId) else h
  let h := if t.timelineStamp.isSome then (h.flagBefore before t).flagBehind behind t else h
  h.promote i

/-- The last position whose task fulfils a condition. -/
def lastPosition? (tasks : List Task) (p : Task → Bool) : Option Nat :=
  (tasks.reverse.findIdx? p).map fun i => tasks.length - 1 - i

/-- The position of the task whose code is in service, found by looking at all. -/
def findCurrent? (tasks : List Task) : Option Nat :=
  (lastPosition? tasks fun t => t.isLive && t.kind = .standard).or
    (lastPosition? tasks Task.isLive)

/-- The history with the code in service looked up anew. -/
def refreshCurrent (h : MethodHistory) : MethodHistory :=
  { h with current := findCurrent? h.tasks }

/-- Adds an event at run time to the task with its number in one reading. The code in
service is looked up anew only if it was hit. -/
def bindDeopt (h : MethodHistory) (pass : Nat) (d : Deopt) : MethodHistory :=
  match h.tasks.findIdx? (Task.isNamed d.compileId pass) with
  | none => h
  | some i =>
    let bound := { h with
      tasks := h.tasks.modify i fun t => { t with deopts := t.deopts ++ [d] } }
    if h.current = some i ∧ bound.tasks[i]?.any Task.isInvalidated then bound.refreshCurrent
    else bound

/-- Changes the first task with a number in one reading. -/
def modifyTask (h : MethodHistory) (id : UInt64) (pass : Nat) (f : Task → Task) :
    MethodHistory :=
  match h.tasks.findIdx? (Task.isNamed id pass) with
  | none => h
  | some i => { h with tasks := h.tasks.modify i f }

end MethodHistory

end CompileLog

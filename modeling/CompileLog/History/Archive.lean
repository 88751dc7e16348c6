import CompileLog.History.Basic
import CompileLog.KeyMap

/-!
# The archive of a session

An archive holds the histories of all methods, and what the logs told that belongs to no
task. Task numbers start anew in each log, so an archive also knows, for each number, the
last reading that used it and the method of its task there. Two archives are the same if
they hold the same; what they know about numbers follows from that.
-/

namespace CompileLog

/-- The task that a number means. -/
structure Owner where
  /-- The reading. -/
  pass : Nat
  /-- The method. -/
  method : Method
  deriving DecidableEq

/-- The histories of all methods. -/
structure Archive where
  /-- The histories in the order of their methods. -/
  histories : KeyMap Method MethodHistory
  /-- What each task number means. -/
  owners : KeyMap UInt64 Owner
  /-- Number of the last reading. -/
  pass : Nat
  /-- Events at run time whose task was not found. -/
  orphanDeopts : List Deopt
  /-- Printed listings whose task was not found. -/
  orphanListings : List Listing
  /-- Free space in the code cache, sample by sample. -/
  codeCache : List CodeCacheSample
  /-- The virtual machines. -/
  headers : List LogHeader
  /-- Number of events at run time that were given up before their task was met. -/
  dropped : Nat

namespace Archive

/-- The archive that holds nothing. -/
def empty : Archive := ⟨∅, ∅, 0, [], [], [], [], 0⟩

/-- The history of a method. -/
def historyOf? (a : Archive) (m : Method) : Option MethodHistory := a.histories.get? m

/-- The task whose code is in service for a method. -/
def currentTaskOf? (a : Archive) (m : Method) : Option Task :=
  (a.historyOf? m).bind MethodHistory.currentTask?

/-- The task that a number means in the last reading that used it. -/
def task? (a : Archive) (id : UInt64) : Option Task :=
  (a.owners.get? id).bind fun o => (a.historyOf? o.method).bind fun h => h.taskIn? id o.pass

/-- All histories, in the order of their methods. -/
def allHistories (a : Archive) : List MethodHistory := a.histories.entries.map Prod.snd

/-- All tasks, history by history. -/
def tasks (a : Archive) : List Task := a.allHistories.flatMap MethodHistory.tasks

/-- Number of methods. -/
def methodCount (a : Archive) : Nat := a.histories.size

/-- Number of tasks. -/
def taskCount (a : Archive) : Nat := a.tasks.length

/-- Whether a stamp lies between two others, or is one of them. -/
def liesBetween (first last : Stamp) (s : Stamp) : Bool :=
  first.micros ≤ s.micros && s.micros ≤ last.micros

/-- The tasks whose timeline stamp lies between two others, along one timeline. -/
def tasksBetween (a : Archive) (first last : Stamp) : List Task :=
  (a.tasks.filter fun t => t.timelineStamp.any (liesBetween first last)).mergeSort Task.notAfter

/-- Whether two archives hold the same. -/
def Same (a b : Archive) : Prop :=
  a.histories = b.histories ∧ a.orphanDeopts = b.orphanDeopts ∧ a.codeCache = b.codeCache ∧
    a.headers = b.headers ∧ a.dropped = b.dropped ∧ a.orphanListings = b.orphanListings

instance (a b : Archive) : Decidable (a.Same b) := by unfold Same; infer_instance

/-- Notes what the number of a stored task means, unless a later reading used it too. -/
def noteOwner (method : Method) (a : Archive) (t : Task) : Archive :=
  let newer := (a.owners.get? t.compileId).all fun o => decide (o.pass < t.pass)
  { a with
    owners := if newer then a.owners.insert t.compileId ⟨t.pass, method⟩ else a.owners
    pass := max a.pass t.pass }

/-- Adds a stored history. The code in service is looked up anew. -/
def addHistory (a : Archive) (h : MethodHistory) : Archive :=
  let a := h.tasks.foldl (noteOwner h.method) a
  { a with histories := a.histories.insert h.method h.refreshCurrent }

end Archive

end CompileLog

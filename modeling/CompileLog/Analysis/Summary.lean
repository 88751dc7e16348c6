import CompileLog.History.Archive
import CompileLog.Json.Value

/-!
# An archive in numbers

How many tasks of each kind an archive holds, how much code they gave, and how long they
waited in the queue.
-/

namespace CompileLog

/-- How long tasks waited, in microseconds. -/
structure Delay where
  least : Nat
  greatest : Nat
  /-- The mean, cut to a whole number. -/
  mean : Nat
  /-- Number of tasks of which it is known. -/
  samples : Nat
  deriving DecidableEq, Repr

/-- The sum of some numbers. -/
def total (ns : List Nat) : Nat := ns.foldl (· + ·) 0

/-- The delay over some tasks, if there are any. -/
def Delay.of? (delays : List Nat) : Option Delay :=
  match delays.min?, delays.max? with
  | some least, some greatest => some ⟨least, greatest, total delays / delays.length, delays.length⟩
  | _, _ => none

/-- An archive in numbers. -/
structure Summary where
  methods : Nat
  tasks : Nat
  /-- Number of tasks in each tier. -/
  byLevel : KeyMap UInt8 Nat
  /-- Number of tasks of each compiler. -/
  byCompiler : KeyMap String Nat
  /-- Tasks entered by on-stack replacement. -/
  osr : Nat
  /-- Bridges to native code. -/
  nativeWrappers : Nat
  failed : Nat
  abandoned : Nat
  /-- Tasks whose code went out of service. -/
  invalidated : Nat
  /-- Tasks with something wrong. -/
  flaggedTasks : Nat
  /-- Histories with something wrong. -/
  flaggedHistories : Nat
  /-- Bytes of machine code. -/
  nativeBytes : Nat
  /-- Bytecodes inlined. -/
  inlinedBytes : Nat
  queueDelay : Option Delay
  orphanDeopts : Nat
  dropped : Nat
  orphanListings : Nat
  removedAllocations : Nat
  removedLocks : Nat
  hotThrows : Nat
  deriving DecidableEq

namespace Summary

/-- How often each key occurs. -/
def tally {κ : Type} [LE κ] [LT κ] [DecidableEq κ] [DecidableLT κ] [Std.IsLinearOrder κ]
    [Std.LawfulOrderLT κ] (keys : List κ) : KeyMap κ Nat :=
  keys.foldl (fun m key => m.insert key ((m.get? key).getD 0 + 1)) ∅

/-- Whether a task gave no machine code. -/
def isFailed (t : Task) : Bool :=
  match t.outcome with
  | .failed _ => true
  | _ => false

/-- A logged size; nothing where it is not known. -/
def size (n : Option UInt64) : Nat := (n.map UInt64.toNat).getD 0

/-- The numbers of an archive. -/
def of (a : Archive) : Summary where
  methods := a.methodCount
  tasks := a.tasks.length
  byLevel := tally (a.tasks.filterMap Task.level)
  byCompiler := tally (a.tasks.filterMap Task.compilerName)
  osr := a.tasks.countP fun t => t.kind.isOsr
  nativeWrappers := a.tasks.countP fun t => t.kind = .nativeWrapper
  failed := a.tasks.countP isFailed
  abandoned := a.tasks.countP Task.isAbandoned
  invalidated := a.tasks.countP Task.isInvalidated
  flaggedTasks := a.tasks.countP fun t => !t.flags.isEmpty
  flaggedHistories := a.allHistories.countP fun h => !h.flags.isEmpty
  nativeBytes := total (a.tasks.map fun t => size t.nativeSize)
  inlinedBytes := total (a.tasks.map fun t => size t.inlinedBytes)
  queueDelay := Delay.of? (a.tasks.filterMap Task.queueDelay)
  orphanDeopts := a.orphanDeopts.length
  dropped := a.dropped
  orphanListings := a.orphanListings.length
  removedAllocations := (a.tasks.flatMap Task.removedAllocations).length
  removedLocks := (a.tasks.flatMap Task.removedLocks).length
  hotThrows := (a.tasks.flatMap Task.hotThrows).length

/-- Waiting times as JSON. -/
def writeDelay (d : Delay) : Json.Value :=
  .object [("min_us", .natural d.least), ("max_us", .natural d.greatest),
    ("mean_us", .natural d.mean), ("samples", .natural d.samples)]

/-- Numbers by key as JSON. -/
def writeTally {κ : Type} [LT κ] (name : κ → String) (m : KeyMap κ Nat) : Json.Value :=
  .object (m.entries.map fun e => (name e.1, .natural e.2))

/-- The numbers as JSON. -/
def write (s : Summary) : Json.Value :=
  .object [("methods", .natural s.methods), ("tasks", .natural s.tasks),
    ("by_level", writeTally (fun n => String.ofList (Text.decimal n.toNat)) s.byLevel),
    ("by_compiler", writeTally id s.byCompiler),
    ("osr", .natural s.osr), ("native_wrappers", .natural s.nativeWrappers),
    ("failed", .natural s.failed), ("abandoned", .natural s.abandoned),
    ("invalidated", .natural s.invalidated), ("flagged_tasks", .natural s.flaggedTasks),
    ("flagged_histories", .natural s.flaggedHistories),
    ("native_bytes", .natural s.nativeBytes), ("inlined_bytes", .natural s.inlinedBytes),
    ("queue_delay", .optional writeDelay s.queueDelay),
    ("orphan_deopts", .natural s.orphanDeopts), ("dropped_deopts", .natural s.dropped),
    ("orphan_assemblies", .natural s.orphanListings),
    ("eliminated_allocations", .natural s.removedAllocations),
    ("elided_locks", .natural s.removedLocks), ("hot_throws", .natural s.hotThrows)]

end Summary

end CompileLog

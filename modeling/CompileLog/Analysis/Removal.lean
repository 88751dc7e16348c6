import CompileLog.History.Archive

/-!
# What the compiler removed

The allocations and monitor operations that the compiler removed, over all tasks, in the order
of the task numbers.
-/

namespace CompileLog

/-- A removed allocation and its task. -/
structure AllocationRow where
  compileId : UInt64
  /-- The method compiled; the allocation may lie in one that it inlines. -/
  compiled : Method
  /-- The innermost frame. -/
  site : Option Frame
  className : Option String
  deriving DecidableEq

/-- A removed monitor operation and its task. -/
structure LockRow where
  compileId : UInt64
  /-- The method compiled; the operation may lie in one that it inlines. -/
  compiled : Method
  /-- The innermost frame. -/
  site : Option Frame
  op : Option LockOp
  kind : Option String
  deriving DecidableEq

/-- The rows of a task's removed allocations. -/
def Task.allocationRows (t : Task) : List AllocationRow :=
  t.removedAllocations.map fun r => ⟨t.compileId, t.method, r.frames.head?, r.className⟩

/-- The rows of a task's removed monitor operations. -/
def Task.lockRows (t : Task) : List LockRow :=
  t.removedLocks.map fun r => ⟨t.compileId, t.method, r.frames.head?, r.op, r.kind⟩

namespace Archive

/-- All removed allocations. -/
def allocationRows (a : Archive) : List AllocationRow :=
  (a.tasks.flatMap Task.allocationRows).mergeSort fun r s => r.compileId ≤ s.compileId

/-- All removed monitor operations. -/
def lockRows (a : Archive) : List LockRow :=
  (a.tasks.flatMap Task.lockRows).mergeSort fun r s => r.compileId ≤ s.compileId

end Archive

end CompileLog

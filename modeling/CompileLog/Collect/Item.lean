import CompileLog.Task.Basic

/-!
# What a log yields

A collector hands over each task, each event at run time and each sample as soon as it is
complete, and counts what it met.
-/

namespace CompileLog.Collect

/-- Something complete. -/
inductive Item where
  /-- A task, finished or cut short. -/
  | task (task : Task)
  /-- Something that happened to compiled code at run time. -/
  | deopt (deopt : Deopt)
  /-- Installed code of a task that was handed over before. -/
  | lateNative (compileId : UInt64) (native : NativeCode)
  /-- A printed listing of a task that was handed over before, or was never met. -/
  | lateListing (compileId : UInt64) (listing : Listing)
  /-- A printed listing that belongs to no task. -/
  | orphanListing (listing : Listing)
  /-- Free space in the code cache. -/
  | codeCache (sample : CodeCacheSample)

/-- What was met in a log. -/
structure Counts where
  /-- Tasks handed over finished. -/
  closed : Nat
  /-- Tasks handed over unfinished. -/
  abandoned : Nat
  /-- Tasks of which something was said before they began. -/
  implicit : Nat
  /-- Tasks that began with a number used before. -/
  duplicateStarts : Nat
  /-- Events that need a task and met none, or name none. -/
  stray : Nat
  /-- Tags that the vocabulary does not know. -/
  unknown : Nat
  /-- Attributes that could not be read. -/
  unreadAttributes : Nat
  /-- Printed listings that belong to no task. -/
  orphanListings : Nat
  deriving DecidableEq, Repr, Inhabited

/-- Nothing was met. -/
def Counts.zero : Counts := ⟨0, 0, 0, 0, 0, 0, 0, 0⟩

/-- The counts of two logs together. -/
def Counts.add (a b : Counts) : Counts where
  closed := a.closed + b.closed
  abandoned := a.abandoned + b.abandoned
  implicit := a.implicit + b.implicit
  duplicateStarts := a.duplicateStarts + b.duplicateStarts
  stray := a.stray + b.stray
  unknown := a.unknown + b.unknown
  unreadAttributes := a.unreadAttributes + b.unreadAttributes
  orphanListings := a.orphanListings + b.orphanListings

end CompileLog.Collect

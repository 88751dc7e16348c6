import CompileLog.Collect.Item
import CompileLog.History.Archive

/-!
# Filing what logs yield

An index is an archive that is being written. It files tasks under their methods and adds
what is told of a task apart from it: events at run time, installed code and listings. A log
may tell these before the task itself; they then wait in a table of bounded size, out of
which the oldest falls first. None of them meets a task that an earlier reading filed, but what
still waits when a reading ends waits on in the next.
-/

namespace CompileLog

/-- What a log tells of a task apart from the task. -/
inductive Remark where
  /-- Something happened to its code at run time. -/
  | deopt (deopt : Deopt)
  /-- Its code was installed. -/
  | native (native : NativeCode)
  /-- Its code was printed. -/
  | listing (listing : Listing)

/-- Whether a remark is on an event at run time. -/
def Remark.isDeopt : Remark → Bool
  | .deopt _ => true
  | _ => false

/-- Adds a remark to its task. -/
def Task.addRemark (t : Task) : Remark → Task
  | .deopt d => { t with deopts := t.deopts ++ [d] }
  | .native n => t.attachNative n
  | .listing l => t.attachListing l

/-- A remark that still waits when writing ends: an event or a listing stays without its
task, installed code is lost. -/
def Archive.addOrphan (a : Archive) : Remark → Archive
  | .deopt d => { a with orphanDeopts := a.orphanDeopts ++ [d] }
  | .listing l => { a with orphanListings := a.orphanListings ++ [l] }
  | .native _ => a

/-- An archive that is being written. -/
structure Index extends Archive where
  /-- Remarks on tasks not met yet, oldest first, each with the number of its task. -/
  pending : Array (UInt64 × Remark)
  /-- How many remarks wait for each task that any wait for, so that a task which none wait
  for is filed without looking through them. -/
  pendingCounts : KeyMap UInt64 Nat
  /-- The greatest number of remarks that wait. -/
  capacity : Nat

namespace Index

/-- Number of remarks that wait where nothing else is asked for. -/
def defaultCapacity : Nat := 65536

/-- The index that holds nothing. -/
def empty (capacity : Nat) : Index := ⟨.empty, #[], ∅, capacity⟩

/-- Begins another reading: task numbers start anew. The number of a reading is stored with 32 bits,
so what is said of numbers of readings is said as long as they fit. -/
def beginPass (x : Index) : Index := { x with pass := x.pass + 1 }

/-- Counts a remark that is given up. -/
def giveUp (x : Index) (r : Remark) : Index :=
  if r.isDeopt then { x with dropped := x.dropped + 1 } else x

/-- Counts one remark more that waits for a task. -/
def countUp (counts : KeyMap UInt64 Nat) (id : UInt64) : KeyMap UInt64 Nat :=
  counts.insert id ((counts.get? id).getD 0 + 1)

/-- Counts one remark less that waits for a task. -/
def countDown (counts : KeyMap UInt64 Nat) (id : UInt64) : KeyMap UInt64 Nat :=
  match counts.get? id with
  | some n => if n ≤ 1 then counts.erase id else counts.insert id (n - 1)
  | none => counts

/-- Gives up the oldest remark that waits. -/
def dropOldest (x : Index) : Index :=
  match x.pending[0]? with
  | some oldest =>
    { x with
      pending := x.pending.extract 1 x.pending.size
      pendingCounts := countDown x.pendingCounts oldest.1 }.giveUp oldest.2
  | none => x

/-- Lets a remark wait for its task. The oldest one makes room; where none may wait, the
remark itself is given up. -/
def hold (x : Index) (id : UInt64) (r : Remark) : Index :=
  if x.capacity = 0 then x.giveUp r
  else
    let x := if x.capacity ≤ x.pending.size then x.dropOldest else x
    { x with
      pending := x.pending.push (id, r)
      pendingCounts := countUp x.pendingCounts id }

/-- Takes out the remarks that wait for a task, oldest first. -/
def takePending (x : Index) (id : UInt64) : Index × List Remark :=
  if (x.pendingCounts.get? id).isNone then (x, [])
  else
    ({ x with
        pending := x.pending.filter fun p => p.1 ≠ id
        pendingCounts := x.pendingCounts.erase id },
      ((x.pending.filter fun p => p.1 = id).map Prod.snd).toList)

/-- Files a task together with the remarks that wait for it. Within one reading the first
task with a number keeps it. -/
def recordTask (x : Index) (t : Task) : Index :=
  let id := t.compileId
  let (x, remarks) := x.takePending id
  let t := remarks.foldl Task.addRemark { t with pass := x.pass }
  let owner := x.owners.get? id
  let h := ((x.historyOf? t.method).getD (.empty t.method)).insert t owner.isSome
  { x with
    owners :=
      if owner.any fun o => o.pass = x.pass then x.owners
      else x.owners.insert id ⟨x.pass, t.method⟩
    histories := x.histories.insert t.method h }

/-- The history that holds the task with a number in this reading. -/
def historyNow? (x : Index) (id : UInt64) : Option MethodHistory :=
  match x.owners.get? id with
  | some o => if o.pass = x.pass then x.historyOf? o.method else none
  | none => none

/-- Puts back a changed history. -/
def putHistory (x : Index) (key : Method) (h : MethodHistory) : Index :=
  { x with histories := x.histories.insert key h }

/-- Files an event at run time. -/
def recordDeopt (x : Index) (d : Deopt) : Index :=
  match x.owners.get? d.compileId, x.historyNow? d.compileId with
  | some o, some h => x.putHistory o.method (h.bindDeopt x.pass d)
  | _, _ => x.hold d.compileId (.deopt d)

/-- Files installed code or a listing of a task. -/
def recordRemark (x : Index) (id : UInt64) (r : Remark) : Index :=
  match x.owners.get? id, x.historyNow? id with
  | some o, some h =>
    if (h.taskIn? id x.pass).isSome then
      x.putHistory o.method (h.modifyTask id x.pass fun t => t.addRemark r)
    else x.hold id r
  | _, _ => x.hold id r

/-- Files a listing that belongs to no task. -/
def recordOrphanListing (x : Index) (l : Listing) : Index :=
  { x with orphanListings := x.orphanListings ++ [l] }

/-- Files a sample of the code cache. -/
def recordCodeCache (x : Index) (s : CodeCacheSample) : Index :=
  { x with codeCache := x.codeCache ++ [s] }

/-- Files what is known of the virtual machine, if anything is. -/
def recordHeader (x : Index) (h : LogHeader) : Index :=
  if h = .unknown then x else { x with headers := x.headers ++ [h] }

/-- Files something that a log yields. -/
def record (x : Index) : Collect.Item → Index
  | .task t => x.recordTask t
  | .deopt d => x.recordDeopt d
  | .lateNative id n => x.recordRemark id (.native n)
  | .lateListing id l => x.recordRemark id (.listing l)
  | .orphanListing l => x.recordOrphanListing l
  | .codeCache s => x.recordCodeCache s

/-- Ends writing. -/
def freeze (x : Index) : Archive :=
  x.pending.foldl (fun a p => a.addOrphan p.2) x.toArchive

end Index

/-- Begins to write into an archive again. Events whose task was not found wait anew. -/
def Archive.thaw (a : Archive) (capacity : Nat) : Index :=
  a.orphanDeopts.foldl (fun x d => x.hold d.compileId (.deopt d))
    ⟨{ a with orphanDeopts := [] }, #[], ∅, capacity⟩

end CompileLog

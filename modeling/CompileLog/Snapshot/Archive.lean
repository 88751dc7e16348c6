import CompileLog.Files
import CompileLog.History.Archive
import CompileLog.Json.Parser
import CompileLog.Json.Printer
import CompileLog.Snapshot.Task
import CompileLog.Text.Utf8

/-!
# Snapshots

A snapshot is an archive as a JSON text. What the archive knows of task numbers is not
written, since it follows from the tasks; nor is the number of the last reading. A text that
is no snapshot is told apart from a snapshot of another version of the format.
-/

namespace CompileLog

namespace Snapshot

open Json

instance : Stored HistoryFlag where
  write
    | .outOfOrder earlier later =>
      caseOf "OutOfOrderCompileId" (.object [("earlier", write earlier), ("later", write later)])
    | .duplicate id => caseOf "DuplicateCompileId" (write id)
  read? v := do
    let (name, held) ← case? v
    match name with
    | "OutOfOrderCompileId" =>
      withFields ["earlier", "later"] (fun f => do
        return .outOfOrder (← f.need "earlier") (← f.need "later")) held
    | "DuplicateCompileId" => holding .duplicate held
    | _ => none

instance : Stored MethodHistory where
  write h := .object [("method", write h.method), ("tasks", write h.tasks),
    ("current", Value.optional .natural h.current), ("flags", write h.flags)]
  read? v := do
    let f ← Fields.find? ["method", "tasks", "current", "flags"] v
    return ⟨← f.need "method", ← f.need "tasks", ← f.maybeAs "current" (natBelow? UInt64.size),
      ← f.need "flags"⟩

end Snapshot

/-- What a snapshot holds. -/
structure Snapshot where
  /-- The version of the format. -/
  version : UInt32
  histories : List MethodHistory
  orphanDeopts : List Deopt
  codeCache : List CodeCacheSample
  headers : List LogHeader
  dropped : Nat
  orphanListings : List Listing
  deriving DecidableEq

/-- The version of the format that is written and read. -/
def Snapshot.currentVersion : UInt32 := 1

/-- Why a snapshot cannot be read or written. -/
inductive SnapshotError where
  /-- The file cannot be used, for the reason that the system gives. -/
  | file (reason : String)
  /-- The file is there but gives no bytes, for the reason that the system gives. -/
  | withheld (reason : String)
  /-- The text is no snapshot. -/
  | malformed
  /-- The snapshot has another version. -/
  | version (found : UInt32)
  deriving DecidableEq

/-- What is said of an error. -/
def SnapshotError.message : SnapshotError → String
  | .file reason => "Snapshot I/O failed: " ++ reason
  | .withheld reason => "Snapshot is not valid JSON: " ++ reason
  | .malformed => "Snapshot is not valid JSON"
  | .version found =>
    "Unsupported snapshot version " ++ String.ofList (Text.decimal found.toNat) ++
      " (expected " ++ String.ofList (Text.decimal Snapshot.currentVersion.toNat) ++ ")"

namespace Snapshot

open Json

/-- The snapshot of an archive. -/
def ofArchive (a : Archive) : Snapshot :=
  ⟨currentVersion, a.allHistories, a.orphanDeopts, a.codeCache, a.headers, a.dropped,
    a.orphanListings⟩

/-- The archive of a snapshot. Of two histories of one method the later counts. -/
def toArchive (s : Snapshot) : Archive :=
  { s.histories.foldl Archive.addHistory .empty with
    orphanDeopts := s.orphanDeopts
    orphanListings := s.orphanListings
    codeCache := s.codeCache
    headers := s.headers
    dropped := s.dropped }

instance : Stored Snapshot where
  write s := .object [("format_version", write s.version), ("histories", write s.histories),
    ("orphan_deopts", write s.orphanDeopts), ("code_cache", write s.codeCache),
    ("headers", write s.headers), ("dropped_deopts", .natural s.dropped),
    ("orphan_assemblies", write s.orphanListings)]
  read? v := do
    let f ← Fields.find? ["format_version", "histories", "orphan_deopts", "code_cache",
      "headers", "dropped_deopts", "orphan_assemblies"] v
    return ⟨← f.need "format_version", ← f.need "histories", ← f.need "orphan_deopts",
      ← f.orElse "code_cache" [], ← f.orElse "headers" [],
      ← f.orElseAs "dropped_deopts" 0 (natBelow? UInt64.size), ← f.orElse "orphan_assemblies" []⟩

/-- The text of a snapshot. -/
def print (s : Snapshot) : List Char := (write s).compact

/-- Reads the bytes of a snapshot. The version counts only once the text is a snapshot. -/
def read (bytes : List UInt8) : Except SnapshotError Snapshot :=
  match (parse? (Text.Utf8.characters bytes)).bind read? with
  | none => .error .malformed
  | some (s : Snapshot) => if s.version = currentVersion then .ok s else .error (.version s.version)

/-- Reads the archive of the snapshot in a file. A directory can be opened but not read. -/
def load (files : Files) (path : String) : Except SnapshotError Archive :=
  match files path with
  | .missing => .error (.file FileEntry.missingReason)
  | .unreadable reason => .error (.file reason)
  | .directory => .error (.withheld FileEntry.directoryReason)
  | .file bytes => (read bytes).map toArchive

end Snapshot

end CompileLog

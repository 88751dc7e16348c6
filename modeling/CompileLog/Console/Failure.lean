import CompileLog.Analysis.Lookup
import CompileLog.Config
import CompileLog.Console.Page
import CompileLog.Session
import CompileLog.Snapshot.Archive

/-!
# Failures

What is said when a command cannot be carried out: what was tried, and below it the causes from
the nearest to the farthest. A cause of several lines stays in its column.
-/

namespace CompileLog.Console

/-- Why a command cannot be carried out. -/
structure Failure where
  /-- What was tried, or what is wrong where nothing lies behind it. -/
  attempt : String
  /-- The causes, the nearest first. -/
  causes : List String
  deriving DecidableEq

/-- A cause in a column, its first line behind a label and the others behind blanks. -/
def inColumn (first others cause : String) : String :=
  let lines := (Text.splitOn '\n' cause.toList).map String.ofList
  first ++ ("\n" ++ others).intercalate lines

/-- A cause among several, with its number. -/
def numbered (i : Nat) (cause : String) : String :=
  inColumn (flushRight 5 (number i) ++ ": ") "       " cause

/-- The causes below what was tried. -/
def causesText : List String → String
  | [] => ""
  | [cause] => "\n\nCaused by:\n" ++ inColumn "    " "    " cause
  | causes => "\n\nCaused by:\n" ++ "\n".intercalate (causes.mapIdx numbered)

/-- The text of a failure. -/
def Failure.text (f : Failure) : String :=
  "Error: " ++ f.attempt ++ causesText f.causes ++ "\n"

/-! ### Failures of each kind -/

/-- The causes behind a refused configuration. Where an error wraps another, both are told. -/
def configCauses (e : ConfigError) : List String :=
  e.message ::
    match e with
    | .file _ reason => [reason]
    | .overlay inner => [inner.message]
    | .malformed | .noPause => []

/-- The configuration is refused. -/
def Failure.ofConfig (named : Option String) (e : ConfigError) : Failure :=
  ⟨match named with
    | some path => "Failed to load config " ++ path
    | none => "Failed to load " ++ Config.fileName, configCauses e⟩

/-- The log cannot be opened. -/
def Failure.ofSource (log : String) (e : SourceError) : Failure :=
  ⟨"Failed to parse " ++ log, [e.message, e.reason]⟩

/-- The causes behind a snapshot that cannot be used. -/
def snapshotCauses (e : SnapshotError) : List String :=
  e.message ::
    match e with
    | .file reason | .withheld reason => [reason]
    | .malformed | .version _ => []

/-- The snapshot cannot be read. -/
def Failure.ofSnapshot (path : String) (e : SnapshotError) : Failure :=
  ⟨"Failed to load snapshot " ++ path, snapshotCauses e⟩

/-- The snapshot cannot be written. -/
def Failure.ofSaving (path reason : String) : Failure :=
  ⟨"Failed to write snapshot " ++ path, snapshotCauses (.file reason)⟩

/-- A question about a task has no answer. -/
def Failure.ofLookup (attempt : String) (id : UInt64) (e : LookupError) : Failure :=
  ⟨attempt ++ " task " ++ number id.toNat, [e.message]⟩

end CompileLog.Console

import CompileLog.Files
import CompileLog.History.Index
import CompileLog.Text.Utf8
import CompileLog.Toml.Document
import CompileLog.Vocabulary.Table

/-!
# Configuration

A configuration is a TOML document. Every setting may be left out and then has its usual
value, and settings that are not known are passed over. A setting of the wrong type refuses
the document, and so do values that cannot be worked with: a pause of no length between looks
at a growing log, or an overlay that the built-in vocabulary does not take.
-/

namespace CompileLog

open Toml

/-- How a log is followed that is still being written. -/
structure FollowConfig where
  /-- Milliseconds between two looks. -/
  pollMillis : Nat
  /-- Milliseconds without news after which the log counts as finished. -/
  idleMillis : Option Nat
  deriving DecidableEq, Inhabited

/-- The usual way to follow a log. -/
def FollowConfig.usual : FollowConfig := ⟨200, none⟩

/-- A configuration. -/
structure Config where
  /-- The greatest number of remarks on tasks that wait for their task. -/
  pendingCapacity : Nat
  /-- Whether listings are kept once their bytes and anchors are taken from them. -/
  keepListings : Bool
  /-- How a growing log is followed. -/
  follow : FollowConfig
  /-- What is laid over the built-in vocabulary. -/
  overlay : Option Overlay
  deriving DecidableEq, Inhabited

/-- Why a configuration is refused. -/
inductive ConfigError where
  /-- The file cannot be read, for the reason that the system gives. -/
  | file (path reason : String)
  /-- The text is no configuration. -/
  | malformed
  /-- There is no pause between looks at a growing log. -/
  | noPause
  /-- The vocabulary does not take the overlay. -/
  | overlay (error : OverlayError)
  deriving DecidableEq

/-- What is said of an error. -/
def ConfigError.message : ConfigError → String
  | .file path reason => "Failed to read config file " ++ path ++ ": " ++ reason
  | .malformed => "Failed to parse config"
  | .noPause => "Invalid config: follow.poll_interval_ms must be greater than zero"
  | .overlay e => "Invalid schema override: " ++ e.message

namespace Config

/-- The configuration of an empty document. -/
def usual : Config := ⟨Index.defaultCapacity, true, .usual, none⟩

/-- The file that is looked for where none is named. -/
def fileName : String := "jitlog.toml"

/-! ### Settings of each type -/

/-- The settings of a group, given the names that they have where it is written as an array. A
point in time is a group without any setting that is known. -/
def group? (names : List String) : Node → Option Members
  | .table _ members => some members
  | .array items => some (names.zip items)
  | .tables items => some (names.zip items)
  | .scalar .moment => some []
  | _ => none

/-- A setting that has a usual value. -/
def setting {α : Type} (members : Members) (name : String) (usual : α)
    (read? : Node → Option α) : Option α :=
  match members.lookup name with
  | some node => read? node
  | none => some usual

/-- A natural number. -/
def natural? : Node → Option Nat
  | .scalar (.integer i) => if 0 ≤ i then some i.toNat else none
  | _ => none

/-- A truth value. -/
def boolean? : Node → Option Bool
  | .scalar (.boolean b) => some b
  | _ => none

/-- A string. -/
def string? : Node → Option String
  | .text s => some s
  | _ => none

/-- Whether a value holds nothing. -/
def isEmpty : Node → Bool
  | .array [] | .tables [] | .table _ [] => true
  | _ => false

/-- A word out of a fixed set. It may also be the key of a table that holds nothing under
it; in braces that key stands alone. -/
def word? : Node → Option String
  | .text s => some s
  | .table origin ((name, held) :: others) =>
    if isEmpty held ∧ (origin = .braces → others = []) then some name else none
  | _ => none

/-- The members of a table whose keys are free, each read in one way. -/
def entries? {α : Type} (read? : Node → Option α) : Node → Option (KeyMap String α)
  | .table _ members =>
    (members.mapM fun m => (read? m.2).map fun a => (m.1, a)).map KeyMap.ofList
  | _ => none

/-! ### Groups of settings -/

/-- How a growing log is followed. -/
def follow? (node : Node) : Option FollowConfig := do
  let members ← group? ["poll_interval_ms", "idle_timeout_ms"] node
  return ⟨← setting members "poll_interval_ms" FollowConfig.usual.pollMillis natural?,
    ← setting members "idle_timeout_ms" none fun n => (natural? n).map some⟩

/-- What is said about one tag. -/
def tagOverlay? (node : Node) : Option TagOverlay := do
  let members ← group? ["kind", "attributes"] node
  return ⟨← setting members "kind" none fun n => ((word? n).bind EventKind.ofWord?).map some,
    ← setting members "attributes" ∅ (entries? fun n => (word? n).bind Role.ofWord?)⟩

/-- What is laid over the built-in vocabulary. -/
def overlay? (node : Node) : Option Overlay := do
  let members ← group? ["version", "tags"] node
  return ⟨← setting members "version" none fun n => (string? n).map some,
    ← setting members "tags" ∅ (entries? tagOverlay?)⟩

/-- A whole configuration. -/
def ofMembers? (members : Members) : Option Config := do
  return ⟨← setting members "deopt_buffer_capacity" usual.pendingCapacity natural?,
    ← setting members "retain_assembly" usual.keepListings boolean?,
    ← setting members "follow" usual.follow follow?,
    ← setting members "schema" none fun n => (overlay? n).map some⟩

/-- The vocabulary under a configuration. -/
def vocabulary (c : Config) : Except ConfigError Vocabulary :=
  match c.overlay with
  | none => .ok .builtin
  | some o => (Vocabulary.builtin.overlay o).mapError .overlay

/-- Refuses values that cannot be worked with. -/
def validate (c : Config) : Except ConfigError Config :=
  if c.follow.pollMillis = 0 then .error .noPause
  else c.vocabulary.map fun _ => c

/-- Reads a configuration. -/
def parse (text : List Char) : Except ConfigError Config :=
  match (Toml.parse? text).bind ofMembers? with
  | some c => c.validate
  | none => .error .malformed

/-- Said of a file whose bytes are no text. -/
def noTextReason : String := "stream did not contain valid UTF-8"

/-- Reads the configuration in a file. -/
def ofFile (files : Files) (path : String) : Except ConfigError Config :=
  match (files path).read with
  | .error reason => .error (.file path reason)
  | .ok bytes =>
    match Text.Utf8.decode? bytes with
    | some text => parse text
    | none => .error (.file path noTextReason)

/-- The configuration in the file named; where none is named, in the usual file if it is
there, else the usual one. -/
def load (files : Files) (named : Option String) : Except ConfigError Config :=
  match named with
  | some path => ofFile files path
  | none =>
    match files fileName with
    | .missing | .directory => .ok usual
    | .unreadable _ | .file _ => ofFile files fileName

end Config

end CompileLog

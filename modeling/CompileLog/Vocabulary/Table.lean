import CompileLog.KeyMap
import CompileLog.Vocabulary.Role

/-!
# Vocabularies

A vocabulary says what the tags and attributes of a log mean. There is a built-in one,
and a configuration can lay an overlay on it: new tags, another kind for a known tag, more
attributes. An overlay is refused if it names an attribute in a role that its tag's kind is
not read for. Attributes that it does not name keep their roles, also where it gives their
tag another kind.
-/

namespace CompileLog

/-- What one tag means: its kind, and the role of each known attribute. -/
structure TagMeaning where
  kind : EventKind
  attributes : KeyMap String Role
  deriving DecidableEq

/-- The meaning of every known tag. -/
structure Vocabulary where
  version : String
  tags : KeyMap String TagMeaning
  deriving DecidableEq

/-- What an overlay says about one tag. -/
structure TagOverlay where
  kind : Option EventKind
  attributes : KeyMap String Role
  deriving DecidableEq, Inhabited

/-- Changes to a vocabulary. -/
structure Overlay where
  version : Option String
  tags : KeyMap String TagOverlay
  deriving DecidableEq, Inhabited

/-- Why an overlay is refused. -/
inductive OverlayError where
  /-- A tag that is not known yet comes without a kind. -/
  | missingKind (tag : String)
  /-- An attribute is given a role that events of the tag's kind are not read for. -/
  | roleNotUsed (tag attr : String) (role : Role) (kind : EventKind)
  deriving DecidableEq

/-- The text of a refusal. -/
def OverlayError.message : OverlayError → String
  | .missingKind tag => "Schema override for unknown tag '" ++ tag ++ "' must declare a kind"
  | .roleNotUsed tag attr role kind =>
    "Schema override maps attribute '" ++ attr ++ "' of '" ++ tag ++ "' to role '" ++
      role.label ++ "', which " ++ kind.label ++ " events do not use"

/-- Attributes of a compilation, queued or begun. -/
def taskAttributes : List (String × Role) :=
  [("compile_id", .compileId), ("method", .signature), ("bytes", .bytes), ("count", .count),
   ("backedge_count", .backedges), ("iicount", .interpreterCount), ("level", .level),
   ("compile_kind", .compileKind), ("osr_bci", .osrBci), ("stamp", .stamp)]

/-- Attributes of a phase, begun or ended. -/
def phaseAttributes : List (String × Role) :=
  [("name", .name), ("nodes", .nodes), ("live", .live), ("stamp", .stamp)]

/-- The tags of the built-in vocabulary, with their attributes. -/
def builtinTags : List (String × EventKind × List (String × Role)) := [
  ("hotspot_log", .logStart, [("version", .version), ("process", .process), ("time_ms", .timeMs)]),
  ("release", .headerText, []),
  ("vm_version", .headerText, []),
  ("name", .headerText, []),
  ("start_compile_thread", .compilerThread,
    [("name", .name), ("thread", .thread), ("stamp", .stamp)]),
  ("compilation_log", .threadLog, [("thread", .thread)]),
  ("task_queued", .taskQueued, taskAttributes),
  ("task", .taskStart, taskAttributes),
  ("task_done", .taskDone,
    [("success", .success), ("nmsize", .nativeSize), ("inlined_bytes", .inlinedBytes),
     ("stamp", .stamp)]),
  ("failure", .failure, [("reason", .reason), ("stamp", .stamp)]),
  ("phase", .phase, phaseAttributes),
  ("phase_done", .phaseDone, phaseAttributes),
  ("type", .typeDef, [("id", .id), ("name", .name)]),
  ("klass", .klassDef, [("id", .id), ("name", .name)]),
  ("method", .methodDef,
    [("id", .id), ("holder", .holder), ("name", .name), ("return", .returnType),
     ("arguments", .arguments), ("bytes", .bytes), ("iicount", .interpreterCount)]),
  ("parse", .parseOpen, [("method", .methodRef), ("uses", .uses), ("stamp", .stamp)]),
  ("parse_done", .parseDone, [("stamp", .stamp)]),
  ("bc", .bytecode, [("code", .opcode), ("bci", .bci)]),
  ("call", .call, [("method", .methodRef), ("count", .count), ("inline", .inlineFlag)]),
  ("inline_success", .inlineSuccess, [("reason", .reason)]),
  ("inline_fail", .inlineFail, [("reason", .reason)]),
  ("intrinsic", .intrinsic, [("id", .name)]),
  ("uncommon_trap", .uncommonTrap,
    [("compile_id", .compileId), ("bci", .bci), ("reason", .reason), ("action", .action),
     ("stamp", .stamp)]),
  ("jvms", .jvms, [("bci", .bci), ("method", .frameMethod)]),
  ("eliminate_allocation", .eliminateAllocation, [("type", .klassRef)]),
  ("eliminate_lock", .eliminateLock, [("lock", .lockFlag), ("kind", .lockKind)]),
  ("hot_throw", .hotThrow, [("preallocated", .preallocated), ("reason", .reason)]),
  ("deoptimized", .deoptimized,
    [("compile_id", .compileId), ("reason", .reason), ("pc", .pc), ("stamp", .stamp)]),
  ("make_not_entrant", .madeNotEntrant,
    [("compile_id", .compileId), ("compiler", .compiler), ("level", .level), ("stamp", .stamp)]),
  ("nmethod", .nmethod,
    [("compile_id", .compileId), ("compiler", .compiler), ("level", .level),
     ("compile_kind", .compileKind), ("address", .address), ("entry", .entry), ("size", .size),
     ("insts_offset", .instsOffset), ("method", .signature), ("stamp", .stamp)]),
  ("code_cache", .codeCache, [("free_code_cache", .freeCodeCache), ("stamp", .stamp)]),
  ("print_nmethod", .printNmethod, [("stamp", .stamp), ("compile_id", .compileId)]),
  ("hotspot_log_done", .structural, []),
  ("tty", .structural, []),
  ("tty_done", .structural, []),
  ("writer", .structural, []),
  ("vm_arguments", .structural, []),
  ("args", .structural, []),
  ("command", .structural, []),
  ("properties", .structural, [])]

namespace Vocabulary

/-- The built-in vocabulary. -/
def builtin : Vocabulary where
  version := "hotspot-1"
  tags := KeyMap.ofList (builtinTags.map fun (tag, kind, attributes) =>
    (tag, ⟨kind, KeyMap.ofList attributes⟩))

instance : Inhabited Vocabulary := ⟨builtin⟩

/-- The kind of a tag. -/
def kindOf (v : Vocabulary) (tag : String) : Option EventKind :=
  (v.tags.get? tag).map TagMeaning.kind

/-- The role of a tag's attribute. -/
def roleOf (v : Vocabulary) (tag attr : String) : Option Role :=
  (v.tags.get? tag).bind fun meaning => meaning.attributes.get? attr

/-- The kind that a tag has under an overlay: the overlay's, else the one it has already. -/
def effectiveKind (v : Vocabulary) (tag : String) (entry : TagOverlay) : Option EventKind :=
  entry.kind.or (v.kindOf tag)

/-- The first attribute of an overlay's tag, in key order, whose role the kind is not
read for. -/
def strayAttribute? (kind : EventKind) (entry : TagOverlay) : Option (String × Role) :=
  entry.attributes.entries.find? fun (_, role) => !kind.roles.contains role

/-- Lays the attributes of an overlay's tag over those already known. -/
def mergeAttributes (base added : KeyMap String Role) : KeyMap String Role :=
  added.entries.foldl (fun m (attr, role) => m.insert attr role) base

/-- Lays one tag of an overlay over a vocabulary. -/
def applyTag (v : Vocabulary) (tag : String) (entry : TagOverlay) :
    Except OverlayError Vocabulary :=
  match v.effectiveKind tag entry with
  | none => .error (.missingKind tag)
  | some kind =>
    match strayAttribute? kind entry with
    | some (attr, role) => .error (.roleNotUsed tag attr role kind)
    | none =>
      let known := ((v.tags.get? tag).map TagMeaning.attributes).getD .empty
      .ok { v with tags := v.tags.insert tag ⟨kind, mergeAttributes known entry.attributes⟩ }

/-- Lays an overlay over a vocabulary, tag by tag in key order. The first problem met
refuses the whole overlay. -/
def overlay (v : Vocabulary) (o : Overlay) : Except OverlayError Vocabulary :=
  o.tags.entries.foldlM (fun w (tag, entry) => w.applyTag tag entry)
    { v with version := o.version.getD v.version }

end Vocabulary

end CompileLog

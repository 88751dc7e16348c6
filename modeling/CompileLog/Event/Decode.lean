import CompileLog.Event.Basic
import CompileLog.Event.Value
import CompileLog.Markup.Fragment
import CompileLog.Vocabulary.Table

/-!
# From fragments to events

Each fragment gives one event, by the vocabulary alone: what came before in the log plays
no part. An attribute that the vocabulary does not map is ignored; one whose text does not
fit its role is reported and reads as absent.
-/

namespace CompileLog

open Markup

/-- The attributes of a tag read by their roles: the values, and what could not be read,
both in document order. -/
def readAttributes (roles : KeyMap String Role) :
    List (String × String) → AttrValues × List UnreadAttr
  | [] => ([], [])
  | (name, raw) :: rest =>
    let (values, unread) := readAttributes roles rest
    match roles.get? name with
    | none => (values, unread)
    | some role =>
      match role.form.read? raw with
      | some value => ((role, value) :: values, unread)
      | none => (values, ⟨name, role, raw⟩ :: unread)

/-- The facts about a compilation. -/
def TaskFacts.ofValues (v : AttrValues) : TaskFacts where
  compileId := v.word64? .compileId
  method := v.signature? .signature
  bytes := v.word32? .bytes
  count := v.word64? .count
  backedgeCount := v.word64? .backedges
  interpreterCount := v.word64? .interpreterCount
  level := v.word8? .level
  compileKind := v.text? .compileKind
  osrBci := v.word32? .osrBci
  stamp := v.stamp? .stamp

/-- The facts about a phase. -/
def PhaseFacts.ofValues (v : AttrValues) : PhaseFacts where
  name := v.text? .name
  nodes := v.word64? .nodes
  live := v.word64? .live
  stamp := v.stamp? .stamp

/-- The facts about installed code. -/
def NativeFacts.ofValues (v : AttrValues) : NativeFacts where
  compileId := v.word64? .compileId
  compiler := v.text? .compiler
  level := v.word8? .level
  compileKind := v.text? .compileKind
  address := v.address? .address
  entry := v.address? .entry
  size := v.word64? .size
  instsOffset := v.word64? .instsOffset
  method := v.signature? .signature
  stamp := v.stamp? .stamp

/-- The event that a start tag of a kind stands for. -/
def Event.ofValues (kind : EventKind) (v : AttrValues) : Event :=
  match kind with
  | .logStart => .logStart (v.text? .version) (v.word64? .process) (v.word64? .timeMs)
  | .headerText | .structural => .structural
  | .compilerThread => .compilerThread (v.text? .name) (v.text? .thread) (v.stamp? .stamp)
  | .threadLog => .threadLog (v.text? .thread)
  | .taskQueued => .taskQueued (.ofValues v)
  | .taskStart => .taskStart (.ofValues v)
  | .taskDone =>
    .taskDone (v.flag? .success) (v.word64? .nativeSize) (v.word64? .inlinedBytes)
      (v.stamp? .stamp)
  | .failure => .failure (v.text? .reason) (v.stamp? .stamp)
  | .phase => .phase (.ofValues v)
  | .phaseDone => .phaseDone (.ofValues v)
  | .typeDef => .typeDef (v.word64? .id) (v.text? .name)
  | .klassDef => .klassDef (v.word64? .id) (v.text? .name)
  | .methodDef =>
    .methodDef (v.word64? .id) (v.word64? .holder) (v.text? .name) (v.word64? .returnType)
      (v.ids? .arguments) (v.word32? .bytes) (v.word64? .interpreterCount)
  | .parseOpen => .parseOpen (v.word64? .methodRef) (v.stamp? .stamp)
  | .parseDone => .parseDone (v.stamp? .stamp)
  | .bytecode => .bytecode (v.word32? .opcode) (v.word32? .bci)
  | .call => .call (v.word64? .methodRef) (v.word64? .count) (v.flag? .inlineFlag)
  | .inlineSuccess => .inlineSuccess (v.text? .reason)
  | .inlineFail => .inlineFail (v.text? .reason)
  | .intrinsic => .intrinsic (v.text? .name)
  | .uncommonTrap =>
    .uncommonTrap (v.word64? .compileId) (v.word32? .bci) (v.text? .reason) (v.text? .action)
      (v.stamp? .stamp)
  | .jvms => .jvms (v.word32? .bci) (v.signature? .frameMethod) (v.word64? .frameMethod)
  | .eliminateAllocation => .eliminateAllocation (v.word64? .klassRef)
  | .eliminateLock => .eliminateLock (v.flag? .lockFlag) (v.text? .lockKind)
  | .hotThrow => .hotThrow (v.flag? .preallocated) (v.text? .reason)
  | .deoptimized =>
    .deoptimized (v.word64? .compileId) (v.text? .reason) (v.address? .pc) (v.stamp? .stamp)
  | .madeNotEntrant =>
    .madeNotEntrant (v.word64? .compileId) (v.text? .compiler) (v.word8? .level)
      (v.stamp? .stamp)
  | .nmethod => .nmethod (.ofValues v)
  | .codeCache => .codeCache (v.word64? .freeCodeCache) (v.stamp? .stamp)
  | .printNmethod => .printNmethod (v.word64? .compileId) (v.stamp? .stamp)

/-- What printed machine code is told by when no element announces it. -/
def assemblyMarkers : List String :=
  ["Compiled method (", "Decoding compiled method", "[Disassembling for mach", "[Entry Point]",
   "[Verified Entry Point]"]

/-- Whether a text looks like printed machine code. -/
def looksLikeAssembly (text : String) : Bool :=
  assemblyMarkers.any fun marker => Text.contains marker.toList text.toList

/-- The event that characters inside an element stand for. -/
def Event.ofText (vocabulary : Vocabulary) (parent : Option String) (text : String) : Event :=
  match parent.bind vocabulary.kindOf with
  | some .printNmethod => .assemblyText text
  | some .headerText => .headerText (parent.getD "") text
  | _ => if looksLikeAssembly text then .assemblyText text else .text text

/-- The event that a start tag or empty element stands for, and its unread attributes. -/
def Event.ofTag (vocabulary : Vocabulary) (name : String)
    (attributes : List (String × String)) : Event × List UnreadAttr :=
  match vocabulary.tags.get? name with
  | none => (.unknown name attributes false, [])
  | some meaning =>
    let (values, unread) := readAttributes meaning.attributes attributes
    (.ofValues meaning.kind values, unread)

/-- The event of a fragment. -/
def decode (vocabulary : Vocabulary) (f : Fragment) : LogEvent :=
  let (shape, event, unread) : Shape × Event × List UnreadAttr :=
    match f.content with
    | .opening name attributes => (.opening, Event.ofTag vocabulary name attributes)
    | .empty name attributes => (.empty, Event.ofTag vocabulary name attributes)
    | .closing name =>
      match vocabulary.kindOf name with
      | some kind => (.closing, .close kind, [])
      | none => (.closing, .unknown name [] true, [])
    | .text text => (.text, .ofText vocabulary f.parent text, [])
  { shape, tag := f.name, event, unread, depth := f.depth, parent := f.parent,
    position := f.position }

end CompileLog

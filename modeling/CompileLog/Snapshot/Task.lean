import CompileLog.Snapshot.Code
import CompileLog.Task.Basic

/-!
# Stored tasks

How tasks and all that belongs to them are written in a snapshot.
-/

namespace CompileLog.Snapshot

open Json

/-- Reads the position of a call site, the depth of one, or the number of a reading. -/
def small? : Value → Option Nat := natBelow? UInt32.size

instance : Stored Decision where
  write
    | .inlined => .string "Inlined"
    | .notInlined => .string "NotInlined"
    | .intrinsic => .string "Intrinsic"
  read? v := do
    let (name, held) ← case? v
    match name with
    | "Inlined" => bare .inlined held
    | "NotInlined" => bare .notInlined held
    | "Intrinsic" => bare .intrinsic held
    | _ => none

instance : Stored InlineNode where
  write n := .object [("id", .natural n.id), ("parent", .optional .natural n.parent),
    ("children", .list .natural n.children), ("callee", write n.site.callee),
    ("bci", write n.site.bci), ("decision", write n.site.decision),
    ("reason", write n.site.reason), ("detail", write n.site.detail),
    ("callee_size", write n.site.calleeSize),
    ("invocation_count", write n.site.invocationCount), ("depth", .natural n.depth)]
  read? v := do
    let f ← Fields.find? ["id", "parent", "children", "callee", "bci", "decision", "reason",
      "detail", "callee_size", "invocation_count", "depth"] v
    let id ← f.needAs "id" small?
    let parent ← f.maybeAs "parent" small?
    let children ← f.needAs "children" fun
      | .array vs => vs.mapM small?
      | _ => none
    let site : CallSite := ⟨← f.need "callee", ← f.maybe "bci", ← f.need "decision",
      ← f.maybe "reason", ← f.maybe "detail", ← f.maybe "callee_size",
      ← f.maybe "invocation_count"⟩
    return ⟨id, parent, children, site, ← f.needAs "depth" small?⟩

instance : Stored InlineTree where
  write t := .object [("root_method", write t.rootMethod), ("root_size", write t.rootSize),
    ("roots", .list .natural t.topLevel), ("nodes", write t.nodes.toList)]
  read? v := do
    let f ← Fields.find? ["root_method", "root_size", "roots", "nodes"] v
    let topLevel ← f.needAs "roots" fun
      | .array vs => vs.mapM small?
      | _ => none
    let nodes : List InlineNode ← f.need "nodes"
    return ⟨← f.need "root_method", ← f.maybe "root_size", topLevel, nodes.toArray⟩

instance : Stored TaskState where
  write
    | .opened => .string "Opened"
    | .accumulating => .string "Accumulating"
    | .closed => .string "Closed"
    | .abandoned => .string "Abandoned"
  read? v := do
    let (name, held) ← case? v
    match name with
    | "Opened" => bare .opened held
    | "Accumulating" => bare .accumulating held
    | "Closed" => bare .closed held
    | "Abandoned" => bare .abandoned held
    | _ => none

instance : Stored Outcome where
  write
    | .pending => .string "Pending"
    | .succeeded => .string "Succeeded"
    | .failed reason => caseOf "Failed" (.object [("reason", write reason)])
  read? v := do
    let (name, held) ← case? v
    match name with
    | "Pending" => bare .pending held
    | "Succeeded" => bare .succeeded held
    | "Failed" => withFields ["reason"] (fun f => (f.maybe "reason").map .failed) held
    | _ => none

instance : Stored CompileKind where
  write
    | .standard => .string "Standard"
    | .osr bci => caseOf "Osr" (.object [("bci", write bci)])
    | .nativeWrapper => .string "NativeWrapper"
  read? v := do
    let (name, held) ← case? v
    match name with
    | "Standard" => bare .standard held
    | "Osr" => withFields ["bci"] (fun f => (f.maybe "bci").map .osr) held
    | "NativeWrapper" => bare .nativeWrapper held
    | _ => none

instance : Stored Hotness where
  write h := .object [("invocation_count", write h.invocations),
    ("backedge_count", write h.backedges), ("interpreter_invocation_count", write h.interpreted)]
  read? v := do
    let f ← Fields.find?
      ["invocation_count", "backedge_count", "interpreter_invocation_count"] v
    return ⟨← f.maybe "invocation_count", ← f.maybe "backedge_count",
      ← f.maybe "interpreter_invocation_count"⟩

instance : Stored Phase where
  write p := .object [("name", write p.name), ("started_at", write p.startedAt),
    ("finished_at", write p.finishedAt), ("nodes_before", write p.nodesBefore),
    ("nodes_after", write p.nodesAfter)]
  read? v := do
    let f ← Fields.find? ["name", "started_at", "finished_at", "nodes_before", "nodes_after"] v
    return ⟨← f.need "name", ← f.maybe "started_at", ← f.maybe "finished_at",
      ← f.maybe "nodes_before", ← f.maybe "nodes_after"⟩

instance : Stored PlantedTrap where
  write t := .object [("method", write t.method), ("bci", write t.bci),
    ("reason", write t.reason), ("action", write t.action)]
  read? v := do
    let f ← Fields.find? ["method", "bci", "reason", "action"] v
    return ⟨← f.need "method", ← f.maybe "bci", ← f.maybe "reason", ← f.maybe "action"⟩

instance : Stored Frame where
  write a := .object [("method", write a.method), ("bci", write a.bci)]
  read? v := do
    let f ← Fields.find? ["method", "bci"] v
    return ⟨← f.need "method", ← f.maybe "bci"⟩

instance : Stored RemovedAllocation where
  write a := .object [("class", write a.className), ("frames", write a.frames)]
  read? v := do
    let f ← Fields.find? ["class", "frames"] v
    return ⟨← f.maybe "class", ← f.need "frames"⟩

instance : Stored LockOp where
  write
    | .lock => .string "lock"
    | .unlock => .string "unlock"
  read? v := do
    let (name, held) ← case? v
    match name with
    | "lock" => bare .lock held
    | "unlock" => bare .unlock held
    | _ => none

instance : Stored RemovedLock where
  write l := .object [("op", write l.op), ("kind", write l.kind), ("frames", write l.frames)]
  read? v := do
    let f ← Fields.find? ["op", "kind", "frames"] v
    return ⟨← f.maybe "op", ← f.maybe "kind", ← f.need "frames"⟩

instance : Stored HotThrow where
  write t := .object [("method", write t.method), ("bci", write t.bci),
    ("reason", write t.reason), ("preallocated", write t.preallocated)]
  read? v := do
    let f ← Fields.find? ["method", "bci", "reason", "preallocated"] v
    return ⟨← f.need "method", ← f.maybe "bci", ← f.maybe "reason", ← f.need "preallocated"⟩

instance : Stored TaskFlag where
  write
    | .implicitlyOpened => .string "ImplicitlyOpened"
    | .incomplete => .string "Incomplete"
    | .structurallyInconsistent node bci callerSize =>
      caseOf "StructurallyInconsistent" (.object [("node", .natural node), ("bci", write bci),
        ("parent_size", write callerSize)])
    | .unreadAttribute tag attr raw =>
      caseOf "UnparsedAttribute" (.object [("tag", write tag), ("attribute", write attr),
        ("raw", write raw)])
    | .unresolvedMethod => .string "UnresolvedMethod"
    | .duplicateCompileId => .string "DuplicateCompileId"
    | .unbalancedScopes => .string "UnbalancedScopes"
    | .oversizedListing span => caseOf "OversizedAssembly" (.object [("span", write span)])
  read? v := do
    let (name, held) ← case? v
    match name with
    | "ImplicitlyOpened" => bare .implicitlyOpened held
    | "Incomplete" => bare .incomplete held
    | "StructurallyInconsistent" =>
      withFields ["node", "bci", "parent_size"] (fun f => do
        return .structurallyInconsistent (← f.needAs "node" small?) (← f.need "bci")
          (← f.need "parent_size")) held
    | "UnparsedAttribute" =>
      withFields ["tag", "attribute", "raw"] (fun f => do
        return .unreadAttribute (← f.need "tag") (← f.need "attribute") (← f.need "raw")) held
    | "UnresolvedMethod" => bare .unresolvedMethod held
    | "DuplicateCompileId" => bare .duplicateCompileId held
    | "UnbalancedScopes" => bare .unbalancedScopes held
    | "OversizedAssembly" =>
      withFields ["span"] (fun f => (f.need "span").map .oversizedListing) held
    | _ => none

instance : Stored DeoptKind where
  write
    | .uncommonTrap => .string "UncommonTrap"
    | .deoptimized => .string "Deoptimized"
    | .madeNotEntrant => .string "MadeNotEntrant"
  read? v := do
    let (name, held) ← case? v
    match name with
    | "UncommonTrap" => bare .uncommonTrap held
    | "Deoptimized" => bare .deoptimized held
    | "MadeNotEntrant" => bare .madeNotEntrant held
    | _ => none

instance : Stored Deopt where
  write d := .object [("compile_id", write d.compileId), ("kind", write d.kind),
    ("bci", write d.bci), ("method", write d.method), ("reason", write d.reason),
    ("action", write d.action), ("stamp", write d.stamp)]
  read? v := do
    let f ← Fields.find? ["compile_id", "kind", "bci", "method", "reason", "action", "stamp"] v
    return ⟨← f.need "compile_id", ← f.need "kind", ← f.maybe "bci", ← f.maybe "method",
      ← f.maybe "reason", ← f.maybe "action", ← f.maybe "stamp"⟩

/-- The names of a task's fields, in order. -/
def taskFields : List String :=
  ["compile_id", "method", "level", "compiler", "kind", "bytecode_size", "hotness", "queued_at",
   "started_at", "finished_at", "state", "outcome", "native_size", "inlined_bytes",
   "compiler_thread", "inline_tree", "phases", "emitted_traps", "eliminated_allocations",
   "elided_locks", "hot_throws", "nmethod", "deopts", "flags", "pass"]

instance : Stored Task where
  write t := .object [("compile_id", write t.compileId), ("method", write t.method),
    ("level", write t.level), ("compiler", write t.compiler), ("kind", write t.kind),
    ("bytecode_size", write t.bytecodeSize), ("hotness", write t.hotness),
    ("queued_at", write t.queuedAt), ("started_at", write t.startedAt),
    ("finished_at", write t.finishedAt), ("state", write t.state),
    ("outcome", write t.outcome), ("native_size", write t.nativeSize),
    ("inlined_bytes", write t.inlinedBytes), ("compiler_thread", write t.thread),
    ("inline_tree", write t.tree), ("phases", write t.phases),
    ("emitted_traps", write t.plantedTraps),
    ("eliminated_allocations", write t.removedAllocations),
    ("elided_locks", write t.removedLocks), ("hot_throws", write t.hotThrows),
    ("nmethod", write t.native), ("deopts", write t.deopts), ("flags", write t.flags),
    ("pass", .natural t.pass)]
  read? v := do
    let f ← Fields.find? taskFields v
    return {
      compileId := ← f.need "compile_id"
      method := ← f.need "method"
      level := ← f.maybe "level"
      compiler := ← f.maybe "compiler"
      kind := ← f.need "kind"
      bytecodeSize := ← f.maybe "bytecode_size"
      hotness := ← f.need "hotness"
      queuedAt := ← f.maybe "queued_at"
      startedAt := ← f.maybe "started_at"
      finishedAt := ← f.maybe "finished_at"
      state := ← f.need "state"
      outcome := ← f.need "outcome"
      nativeSize := ← f.maybe "native_size"
      inlinedBytes := ← f.maybe "inlined_bytes"
      thread := ← f.maybe "compiler_thread"
      tree := ← f.need "inline_tree"
      phases := ← f.need "phases"
      plantedTraps := ← f.need "emitted_traps"
      removedAllocations := ← f.orElse "eliminated_allocations" []
      removedLocks := ← f.orElse "elided_locks" []
      hotThrows := ← f.orElse "hot_throws" []
      native := ← f.maybe "nmethod"
      deopts := ← f.need "deopts"
      flags := ← f.need "flags"
      pass := ← f.orElseAs "pass" 0 small? }

instance : Stored CodeCacheSample where
  write s := .object [("compile_id", write s.compileId), ("stamp", write s.stamp),
    ("native_size", write s.nativeSize), ("free_code_cache", write s.freeCodeCache)]
  read? v := do
    let f ← Fields.find? ["compile_id", "stamp", "native_size", "free_code_cache"] v
    return ⟨← f.need "compile_id", ← f.maybe "stamp", ← f.maybe "native_size",
      ← f.maybe "free_code_cache"⟩

instance : Stored LogHeader where
  write h := .object [("log_version", write h.logVersion), ("process", write h.process),
    ("start_time_ms", write h.startTimeMillis), ("vm_name", write h.vmName),
    ("vm_release", write h.vmRelease), ("compiler_threads", write h.compilerThreads)]
  read? v := do
    let f ← Fields.find? ["log_version", "process", "start_time_ms", "vm_name", "vm_release",
      "compiler_threads"] v
    return ⟨← f.maybe "log_version", ← f.maybe "process", ← f.maybe "start_time_ms",
      ← f.maybe "vm_name", ← f.maybe "vm_release", ← f.need "compiler_threads"⟩

end CompileLog.Snapshot

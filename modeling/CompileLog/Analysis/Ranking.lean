import CompileLog.History.Archive

/-!
# Rankings

A ranking orders tasks, methods or labels by a value, the greatest first. Entries of one value
come in the order of their labels, so a ranking does not depend on the order in which its
entries were found.
-/

namespace CompileLog

/-- What is ranked. -/
inductive Ranking where
  /-- Tasks by the size of their machine code. -/
  | largestNative
  /-- Methods by their size in bytecodes. -/
  | largestBytecode
  /-- Tasks by the time they took. -/
  | slowestCompiles
  /-- Methods by the number of tasks whose code went out of service. -/
  | mostDecompiled
  /-- Reasons not to inline by the number of call sites. -/
  | inlineFailureReasons
  /-- Intrinsics by the number of call sites. -/
  | intrinsics
  /-- Throws of preallocated exceptions by the number of tasks. -/
  | hotThrows
  deriving DecidableEq, Repr

namespace Ranking

/-- All rankings. -/
def all : List Ranking :=
  [.largestNative, .largestBytecode, .slowestCompiles, .mostDecompiled, .inlineFailureReasons,
   .intrinsics, .hotThrows]

/-- The name that a ranking is asked for by. -/
def label : Ranking → String
  | .largestNative => "largest-native"
  | .largestBytecode => "largest-bytecode"
  | .slowestCompiles => "slowest-compiles"
  | .mostDecompiled => "most-decompiled"
  | .inlineFailureReasons => "inline-failure-reasons"
  | .intrinsics => "intrinsics"
  | .hotThrows => "hot-throws"

/-- The heading of a ranking. -/
def title : Ranking → String
  | .largestNative => "Largest native methods (bytes)"
  | .largestBytecode => "Largest bytecode methods (bytes)"
  | .slowestCompiles => "Slowest compilations (us)"
  | .mostDecompiled => "Most decompiled methods"
  | .inlineFailureReasons => "Inlining failure reasons"
  | .intrinsics => "Most used intrinsics"
  | .hotThrows => "Hot throws"

/-- The ranking with a name. -/
def ofLabel? (name : String) : Option Ranking := all.find? fun r => r.label = name

/-- Said of a name that no ranking has. -/
def unknownMessage (name : String) : String := "Unknown top list '" ++ name ++ "'"

/-- An entry of a ranking. -/
structure Entry where
  /-- What it says. -/
  label : String
  /-- The method that it is about, if it is about one. -/
  method : Option Method
  /-- The task that it is about, if it is about one. -/
  compileId : Option UInt64
  /-- What it is ranked by. -/
  value : Nat
  deriving DecidableEq, Repr

/-- Whether an entry stands before another, or at the same place. -/
def Entry.notAfter (a b : Entry) : Bool :=
  b.value < a.value || (a.value = b.value && a.label ≤ b.label)

/-- An entry about a method. -/
def Entry.ofMethod (m : Method) (compileId : Option UInt64) (value : Nat) : Entry :=
  ⟨m.display, some m, compileId, value⟩

/-- Counts one more occurrence of a label. The method is that of the first. -/
def countLabel (counts : KeyMap String Entry) (occurrence : String × Option Method) :
    KeyMap String Entry :=
  let (label, method) := occurrence
  let entry := (counts.get? label).getD ⟨label, method, none, 0⟩
  counts.insert label { entry with value := entry.value + 1 }

/-- One entry for each label, with the number of its occurrences. -/
def countLabels (occurrences : List (String × Option Method)) : List Entry :=
  (occurrences.foldl countLabel ∅).entries.map Prod.snd

/-- The call sites of a task that were decided in one way, in preorder. -/
def sitesOf (decision : Decision) (t : Task) : List CallSite :=
  (t.tree.preorder.map InlineNode.site).filter fun s => s.decision = decision

/-- The label of a call site that was not inlined. -/
def failureLabel (s : CallSite) : String × Option Method := (s.reason.getD "unknown", none)

/-- The label of an intrinsic. -/
def intrinsicLabel (s : CallSite) : String × Option Method :=
  (s.callee.display ++ " -> " ++ s.reason.getD "?", some s.callee)

/-- The label of a throw. -/
def throwLabel (t : HotThrow) : String × Option Method :=
  let bci := (t.bci.map fun b => String.ofList (Text.decimal b.toNat)).getD "?"
  (t.method.display ++ " @ " ++ bci ++ ": " ++ t.reason.getD "unknown", some t.method)

/-- The size of a task's machine code. -/
def nativeSize? (t : Task) : Option UInt64 := t.nativeSize.or (t.native.bind NativeCode.size)

/-- The greatest size in bytecodes that a history tells of its method. -/
def bytecodeSize? (h : MethodHistory) : Option Nat :=
  ((h.tasks.filterMap Task.bytecodeSize).map UInt32.toNat).max?

/-- The number of tasks of a history whose code went out of service. -/
def invalidatedCount (h : MethodHistory) : Nat := h.tasks.countP Task.isInvalidated

/-- The entries of a ranking in no particular order. -/
def entries (a : Archive) : Ranking → List Entry
  | .largestNative => a.tasks.filterMap fun t =>
      (nativeSize? t).map fun n => .ofMethod t.method (some t.compileId) n.toNat
  | .slowestCompiles => a.tasks.filterMap fun t =>
      t.duration.map fun n => .ofMethod t.method (some t.compileId) n
  | .largestBytecode => a.allHistories.filterMap fun h =>
      (bytecodeSize? h).map fun n => .ofMethod h.method none n
  | .mostDecompiled => a.allHistories.filterMap fun h =>
      if invalidatedCount h = 0 then none
      else some (.ofMethod h.method none (invalidatedCount h))
  | .inlineFailureReasons =>
    countLabels (a.tasks.flatMap fun t => (sitesOf .notInlined t).map failureLabel)
  | .intrinsics =>
    countLabels (a.tasks.flatMap fun t => (sitesOf .intrinsic t).map intrinsicLabel)
  | .hotThrows => countLabels (a.tasks.flatMap fun t => t.hotThrows.map throwLabel)

end Ranking

/-- The first entries of a ranking. -/
def Archive.top (a : Archive) (r : Ranking) (limit : Nat) : List Ranking.Entry :=
  ((r.entries a).mergeSort Ranking.Entry.notAfter).take limit

end CompileLog

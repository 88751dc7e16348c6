import CompileLog.History.Archive
import CompileLog.Text.Blank

/-!
# What would get a call inlined

A compiler says why it does not inline a call, in free words. Some of these reasons tell what
a developer could change, and such call sites are suggested, either for one task or, over all
methods, grouped by the method that is called.
-/

namespace CompileLog

open Text

/-- What could be changed. -/
inductive Remedy where
  /-- The callee could be made smaller. -/
  | smallerCallee
  /-- A command or annotation that forbids inlining could be removed. -/
  | noRestriction
  /-- The recursion could be made shallower. -/
  | shallowerRecursion
  deriving DecidableEq, Repr

namespace Remedy

/-- Words that tell a remedy, in the order in which they are looked for. Recursion comes before
size, since a recursion that is "too deep" is not too big. -/
def clues : List (String × Remedy) :=
  [("recursive", .shallowerRecursion), ("inlining too deep", .shallowerRecursion),
   ("too big", .smallerCallee), ("too large", .smallerCallee), ("big method", .smallerCallee),
   ("size >", .smallerCallee), ("desiredmethodlimit", .smallerCallee),
   ("nodecountinliningcutoff", .smallerCallee),
   ("disallowed by compilecommand", .noRestriction),
   ("excluded by compilecommand", .noRestriction),
   ("don't inline by annotation", .noRestriction), ("dontinline", .noRestriction),
   ("force not inline", .noRestriction)]

/-- The remedy that a reason tells, if it tells any. ASCII letters count alike in both
cases. -/
def ofReason? (reason : String) : Option Remedy :=
  let reason := lowerAscii reason.toList
  (clues.find? fun clue => contains clue.1.toList reason).map Prod.snd

end Remedy

/-- A call that could be inlined after a change. -/
structure Suggestion where
  /-- The call site. -/
  node : Nat
  /-- The method whose bytecode holds it. -/
  caller : Method
  /-- The method called. -/
  callee : Method
  /-- Bytecode index of the call. -/
  bci : Option UInt32
  /-- Why it was not inlined. -/
  reason : String
  /-- What could be changed. -/
  remedy : Remedy
  deriving DecidableEq

/-- The call sites of a tree that were not inlined, in preorder. -/
def InlineTree.rejected (t : InlineTree) : List InlineNode :=
  t.preorder.filter fun n => n.site.decision = .notInlined

/-- The suggestion at a call site, if its reason tells a remedy. -/
def InlineTree.suggestion? (t : InlineTree) (n : InlineNode) : Option Suggestion := do
  let reason ← n.site.reason
  let remedy ← Remedy.ofReason? reason
  return ⟨n.id, t.callerOf n.id, n.site.callee, n.site.bci, reason, remedy⟩

/-- The suggestions for a task, in preorder. -/
def Task.suggestions (t : Task) : List Suggestion := t.tree.rejected.filterMap t.tree.suggestion?

/-- A call site. -/
structure FailureSite where
  /-- The method whose bytecode holds it. -/
  caller : Method
  /-- Bytecode index of the call. -/
  bci : Option UInt32
  deriving DecidableEq

/-- The calls of one method that were not inlined. -/
structure FailureGroup where
  /-- The method called. -/
  callee : Method
  /-- Its size at the first of the calls. -/
  calleeSize : Option UInt32
  /-- How often the first of the calls was made. -/
  invocationCount : Option UInt64
  /-- Why the calls were not inlined, each reason once. -/
  reasons : KeyMap String Unit
  /-- The call sites. -/
  sites : List FailureSite
  deriving DecidableEq

namespace FailureGroup

/-- Reasons that nobody can do anything about. -/
def hopeless : List String := ["not inlineable", "no static binding"]

/-- The reason of a call site; a word where none is logged. -/
def reasonOf (n : InlineNode) : String := n.site.reason.getD "unknown"

/-- The call sites of a tree that belong into a group. -/
def failures (t : InlineTree) : List InlineNode :=
  t.rejected.filter fun n => !hopeless.contains (reasonOf n)

/-- The group of a call site that holds no call site yet. -/
def ofNode (n : InlineNode) : FailureGroup :=
  ⟨n.site.callee, n.site.calleeSize, n.site.invocationCount, ∅, []⟩

/-- A group with one more call site. -/
def add (g : FailureGroup) (t : InlineTree) (n : InlineNode) : FailureGroup :=
  { g with
    reasons := g.reasons.insert (reasonOf n) ()
    sites := g.sites ++ [⟨t.callerOf n.id, n.site.bci⟩] }

/-- Adds a call site to the group of its callee. -/
def file (t : InlineTree) (groups : KeyMap Method FailureGroup) (n : InlineNode) :
    KeyMap Method FailureGroup :=
  groups.insert n.site.callee (((groups.get? n.site.callee).getD (ofNode n)).add t n)

/-- Adds the call sites of a tree to the groups of their callees. -/
def fileAll (groups : KeyMap Method FailureGroup) (t : InlineTree) : KeyMap Method FailureGroup :=
  (failures t).foldl (file t) groups

end FailureGroup

/-- The calls that were not inlined in the last finished task of each method, grouped by the
method called. The group with the most call sites comes first; groups with equally many come in
the order of their methods. -/
def Archive.failureGroups (a : Archive) : List FailureGroup :=
  let trees := a.allHistories.filterMap fun h => h.latestClosed?.map Task.tree
  ((trees.foldl FailureGroup.fileAll ∅).entries.map Prod.snd).mergeSort
    fun g h => h.sites.length ≤ g.sites.length

end CompileLog

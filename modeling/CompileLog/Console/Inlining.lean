import CompileLog.Analysis.Remedy
import CompileLog.Console.Wording

/-!
# Inlining decisions and suggestions

The tree of a task's inlining decisions, and what would get rejected calls inlined: for one
task, or over all methods and grouped by the method called.
-/

namespace CompileLog.Console

/-! ### The tree of a task -/

/-- Where a call site lies in its caller, in a column. -/
def sitePiece (bci : Option UInt32) : Piece :=
  .quiet (match bci with
    | some bci => "@" ++ padded 4 (number bci.toNat) ++ " "
    | none => "@?    ")

/-- The line of a call site, indented by its depth. -/
def nodeLine (n : InlineNode) : Page :=
  [.plain (String.join (List.replicate n.depth "  ")), sitePiece n.site.bci,
    .plain n.site.callee.display] ++
    (match n.site.calleeSize with
      | some size => [.quiet (" (" ++ number size.toNat ++ " bytes)")]
      | none => []) ++
    [.plain "  ", decision n.site.decision] ++
    (match n.site.reason with
      | some reason => [.plain (": " ++ reason)]
      | none => []) ++
    [.lineEnd]

/-- The inlining decisions of a task. -/
def treePage (t : Task) : Page :=
  heading ("#" ++ number t.compileId.toNat ++ " " ++ t.tree.rootMethod.display) ++
    (if t.tree.nodes.isEmpty then [.quiet "  no call sites", .lineEnd] else []) ++
    t.tree.preorder.flatMap nodeLine

/-! ### Suggestions -/

/-- What could be changed. -/
def remedy : Remedy → String
  | .smallerCallee => "split the callee or make it smaller"
  | .noRestriction => "lift the compiler directive that blocks inlining"
  | .shallowerRecursion => "reduce the recursion or call depth"

/-- Said where there is nothing to suggest. -/
def nothingToSuggest : Page := [.live "No actionable inlining failures", .lineEnd]

/-- A suggestion. -/
def suggestionPage (s : Suggestion) : Page :=
  [.strong s.callee.display,
    .quiet (" called from " ++ s.caller.display ++ " @" ++ numberOrMark s.bci), .lineEnd,
    .plain ("  " ++ s.reason ++ ": "), .position (remedy s.remedy), .lineEnd]

/-- The suggestions for a task. -/
def suggestionsPage (t : Task) : Page :=
  if t.suggestions.isEmpty then nothingToSuggest else t.suggestions.flatMap suggestionPage

/-- The line of a call site in a group. -/
def failureLine (s : FailureSite) : Page :=
  [.plain ("    " ++ s.caller.display ++ " @" ++ numberOrMark s.bci), .lineEnd]

/-- The calls of one method that were not inlined. -/
def groupPage (g : FailureGroup) : Page :=
  [.strong g.callee.display,
    .quiet ("  " ++ number g.sites.length ++ " call sites, size " ++ numberOrMark g.calleeSize ++
      ", invoked " ++ (g.invocationCount.map fun n => number n.toNat).getD "?"), .lineEnd,
    .suspect ("  " ++ "; ".intercalate (g.reasons.entries.map Prod.fst)), .lineEnd] ++
    g.sites.flatMap failureLine

/-- The calls that were not inlined, grouped by the method called. -/
def groupsPage (a : Archive) : Page :=
  if a.failureGroups.isEmpty then nothingToSuggest else a.failureGroups.flatMap groupPage

end CompileLog.Console

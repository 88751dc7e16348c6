import CompileLog.Method

/-!
# Inlining decisions

The compiler decides at each call site of the compiled method, and at each call site of
what it inlines, whether to inline the callee. The decisions form a tree whose root is the
compiled method and whose nodes are call sites. The nodes are kept in the order of the
decisions and refer to each other by their position in it.
-/

namespace CompileLog

/-- What the compiler did at a call site. -/
inductive Decision where
  /-- The callee's body replaces the call. -/
  | inlined
  /-- The call stays. -/
  | notInlined
  /-- An intrinsic replaces the call. -/
  | intrinsic
  deriving DecidableEq, Repr, Inhabited

/-- A decision at a call site. -/
structure CallSite where
  /-- The method called. -/
  callee : Method
  /-- Bytecode index of the call in the caller. -/
  bci : Option UInt32
  /-- What was decided. -/
  decision : Decision
  /-- Why. -/
  reason : Option String
  /-- More on the decision. -/
  detail : Option String
  /-- Size of the callee in bytecodes. -/
  calleeSize : Option UInt32
  /-- How often the call was made. -/
  invocationCount : Option UInt64
  deriving DecidableEq, Inhabited

/-- A call site in its place. -/
structure InlineNode where
  /-- Its position among the decisions. -/
  id : Nat
  /-- The call site whose callee contains it; none for the compiled method itself. -/
  parent : Option Nat
  /-- The call sites in its callee. -/
  children : List Nat
  /-- What was decided. -/
  site : CallSite
  /-- One for call sites of the compiled method, one more for each level below. -/
  depth : Nat
  deriving DecidableEq, Inhabited

/-- The inlining decisions of one compilation. -/
structure InlineTree where
  /-- The compiled method. -/
  rootMethod : Method
  /-- Its size in bytecodes. -/
  rootSize : Option UInt32
  /-- The call sites of the compiled method itself. -/
  topLevel : List Nat
  /-- All call sites by position. -/
  nodes : Array InlineNode
  deriving DecidableEq, Inhabited

/-- A call site whose bytecode index lies outside its caller. -/
structure Misplaced where
  /-- The call site. -/
  node : Nat
  /-- Its bytecode index. -/
  bci : UInt32
  /-- The size of its caller. -/
  callerSize : UInt32
  deriving DecidableEq

namespace InlineTree

/-- The tree without any decision. -/
def empty (rootMethod : Method) (rootSize : Option UInt32) : InlineTree :=
  ⟨rootMethod, rootSize, [], #[]⟩

/-- Names another compiled method. A size that is not known leaves the old one. -/
def withRoot (t : InlineTree) (method : Method) (size : Option UInt32) : InlineTree :=
  { t with rootMethod := method, rootSize := size.or t.rootSize }

/-- The call site at a position. -/
def node? (t : InlineTree) (id : Nat) : Option InlineNode := t.nodes[id]?

/-- The node with one more child. -/
def addChild (id : Nat) (n : InlineNode) : InlineNode :=
  { n with children := n.children ++ [id] }

/-- Adds a call site under a parent, and gives its position. A parent that does not exist
counts as none. -/
def add (t : InlineTree) (parent : Option Nat) (site : CallSite) : InlineTree × Nat :=
  let id := t.nodes.size
  match parent.bind t.node? with
  | some p =>
    let node : InlineNode := ⟨id, parent, [], site, p.depth + 1⟩
    let nodes := (t.nodes.modify (parent.getD 0) (addChild id)).push node
    ({ t with nodes }, id)
  | none =>
    let node : InlineNode := ⟨id, none, [], site, 1⟩
    ({ t with nodes := t.nodes.push node, topLevel := t.topLevel ++ [id] }, id)

/-- The method whose bytecode holds a call site. -/
def callerOf (t : InlineTree) (id : Nat) : Method :=
  match ((t.node? id).bind InlineNode.parent).bind t.node? with
  | some parent => parent.site.callee
  | none => t.rootMethod

/-- The size of the method whose bytecode holds a call site. -/
def callerSize (t : InlineTree) (n : InlineNode) : Option UInt32 :=
  match n.parent with
  | some parent => (t.node? parent).bind fun p => p.site.calleeSize
  | none => t.rootSize

/-- The deepest level. -/
def maxDepth (t : InlineTree) : Nat :=
  t.nodes.foldl (fun deepest n => max deepest n.depth) 0

/-- Whether a call site lies outside its caller. What is not known is no fault. -/
def misplaced? (t : InlineTree) (n : InlineNode) : Option Misplaced :=
  match n.site.bci, t.callerSize n with
  | some bci, some size => if size ≤ bci then some ⟨n.id, bci, size⟩ else none
  | _, _ => none

/-- The call sites that lie outside their callers, in the order of the decisions. -/
def validate (t : InlineTree) : List Misplaced :=
  t.nodes.toList.filterMap t.misplaced?

/-- Goes on with a walk: the positions still to visit, and the nodes visited, last first. A
node's children come before what was still to visit. A position without a node ends the
walk. -/
def walkFrom (t : InlineTree) : Nat → List Nat → List InlineNode → List InlineNode
  | 0, _, visited => visited.reverse
  | _, [], visited => visited.reverse
  | fuel + 1, id :: waiting, visited =>
    match t.node? id with
    | none => visited.reverse
    | some n => t.walkFrom fuel (n.children ++ waiting) (n :: visited)

/-- All links: the positions that the tree itself names, and those that its call sites name. -/
def links (t : InlineTree) : List Nat := t.topLevel ++ t.nodes.toList.flatMap InlineNode.children

/-- The room that a walk is given. A walk that ends takes no link twice on its way to a call site,
and comes there only once along the same links, so it does not need more. Only a walk that would
never end, as links run in a circle, is cut. -/
def walkLimit (t : InlineTree) : Nat := Nat.pow 2 t.links.length

/-- All call sites, each before those below it and those below it before the next. -/
def preorder (t : InlineTree) : List InlineNode :=
  t.walkFrom t.walkLimit t.topLevel []

end InlineTree

end CompileLog

import CompileLog.Collect.Compiling

/-!
# Method bodies as a log tells them

A method body is a sequence of calls, each with the decision on it, and the body of an inlined
callee may stand inside. Laid out as an inlining tree, each call site gets the number of those
told before it, its callee's call sites as children, and one level more than its caller.
-/

namespace CompileLog.Collect

/-- A call in a method body. -/
structure Call where
  /-- The number of the callee. -/
  method : UInt64
  /-- The bytecode index of the call. -/
  bci : Option UInt32
  /-- How often it was made. -/
  count : Option UInt64
  /-- Why it was decided as it was. -/
  reason : Option String
  /-- The bytecode, which the tree leaves out. -/
  opcode : Option UInt32
  /-- Whether the log calls the callee small, which the tree leaves out. -/
  inlineFlag : Option Bool
  /-- When the body of the callee was begun, which the tree leaves out. -/
  stamp : Option Stamp

/-- A method body. -/
inductive Body where
  /-- No more calls. -/
  | nil
  /-- A call without the body of its callee, and what follows it. -/
  | site (call : Call) (decision : Decision) (rest : Body)
  /-- An inlined call with the body of its callee, and what follows it. -/
  | inlined (call : Call) (callee rest : Body)

/-- How the log tells a decision. -/
def decisionEvent (reason : Option String) : Decision → Event
  | .inlined => .inlineSuccess reason
  | .notInlined => .inlineFail reason
  | .intrinsic => .intrinsic reason

/-- How the log tells a call and the decision on it. -/
def Call.events (call : Call) (decision : Decision) : List Event :=
  [.bytecode call.opcode call.bci, .call (some call.method) call.count call.inlineFlag,
    decisionEvent call.reason decision]

/-- The call site that a call becomes. What is known of the callee is looked up by its number. -/
def Call.site (call : Call) (names : Dictionary) (decision : Decision) : CallSite where
  callee := names.methodOf (some call.method)
  bci := call.bci
  decision
  reason := call.reason
  detail := none
  calleeSize := names.bytesOf (some call.method)
  invocationCount := call.count

namespace Body

/-- How the log tells a body. -/
def events : Body → List Event
  | nil => []
  | site call decision rest => call.events decision ++ rest.events
  | inlined call callee rest =>
    call.events .inlined ++
      (.parseOpen (some call.method) call.stamp ::
        (callee.events ++ .close .parseOpen :: rest.events))

/-- Number of calls in a body and below. -/
def size : Body → Nat
  | nil => 0
  | site _ _ rest => rest.size + 1
  | inlined _ callee rest => callee.size + rest.size + 1

/-- The positions of the calls of a body itself, from the given one on. -/
def positions (first : Nat) : Body → List Nat
  | nil => []
  | site _ _ rest => first :: rest.positions (first + 1)
  | inlined _ callee rest => first :: rest.positions (first + 1 + callee.size)

end Body

end CompileLog.Collect

/-! ### Growing a tree -/

namespace CompileLog

/-- A change at a position of a first part leaves a second part alone. -/
theorem modify_append_of_lt {α : Type} {first second : List α} {i : Nat} (h : i < first.length)
    (f : α → α) : (first ++ second).modify i f = first.modify i f ++ second := by
  refine List.ext_getElem? fun j => ?_
  rw [List.getElem?_modify, List.getElem?_append, List.getElem?_append, List.length_modify,
    List.getElem?_modify]
  by_cases hj : j < first.length
  · rw [if_pos hj, if_pos hj]
  · have hne : i ≠ j := by omega
    simp [hj, hne]

namespace InlineTree

end InlineTree

end CompileLog

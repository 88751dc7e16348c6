import CompileLog.Correlation.Basic

/-!
# Correlating instructions with anchors

Instructions and anchor offsets are walked together in offset order. An instruction is
governed by the last anchor offset at or before its own. Neighbours with the same governing
offset make one entry, unless bytes between them are not covered; those make a gap entry.
-/

namespace CompileLog.Correlation

/-- The anchors at one offset. -/
structure AnchorGroup where
  /-- Their offset. -/
  offset : UInt64
  /-- The least and greatest of their indices that are not negative. -/
  range : Option (UInt32 × UInt32)
  deriving DecidableEq

/-- A bytecode index that is not negative. -/
def bytecodeIndex? (bci : Int32) : Option UInt32 :=
  if 0 ≤ bci.toInt then some (UInt32.ofNat bci.toInt.toNat) else none

/-- Where code governed by a group comes from. -/
def AnchorGroup.mapping (g : AnchorGroup) : Mapping :=
  match g.range with
  | some (first, last) => .bytecode first last
  | none => .unmapped

/-- Widens a range by one index. -/
def widen (range : Option (UInt32 × UInt32)) (bci : UInt32) : UInt32 × UInt32 :=
  match range with
  | some (first, last) => (min bci first, max bci last)
  | none => (bci, bci)

/-- Adds an anchor to a group. -/
def AnchorGroup.add (g : AnchorGroup) (a : Anchor) : AnchorGroup :=
  match bytecodeIndex? a.bci with
  | some bci => { g with range := some (widen g.range bci) }
  | none => g

/-- Groups of anchors in offset order. -/
def groupSorted : List Anchor → List AnchorGroup
  | [] => []
  | a :: rest =>
    match groupSorted rest with
    | g :: groups =>
      if g.offset = a.offset then g.add a :: groups
      else AnchorGroup.add ⟨a.offset, none⟩ a :: g :: groups
    | [] => [AnchorGroup.add ⟨a.offset, none⟩ a]

/-- The anchors grouped by offset, in offset order. -/
def groupAnchors (anchors : List Anchor) : List AnchorGroup :=
  groupSorted (anchors.mergeSort fun a b => a.offset ≤ b.offset)

/-- What the walk lays down. -/
inductive Stretch where
  /-- Bytes that no instruction covers. -/
  | gap (start stop : Nat)
  /-- An instruction, with the offset that governs it and where it comes from. -/
  | code (instruction : NativeInstruction) (governed : Option UInt64) (mapping : Mapping)

/-- The walk between two instructions. -/
structure Walk where
  /-- Groups not reached yet. -/
  ahead : List AnchorGroup
  /-- The group that governs. -/
  current : Option AnchorGroup
  /-- The end of what instructions have covered. -/
  covered : Nat
  /-- Stretches laid down, last first. -/
  stretches : List Stretch
  /-- Groups passed over without governing an instruction. -/
  misaligned : Nat
  /-- Instructions that started inside an earlier one. -/
  overlapping : Nat

/-- The walk before the first instruction. -/
def Walk.start (groups : List AnchorGroup) : Walk := ⟨groups, none, 0, [], 0, 0⟩

/-- The mapping of code governed by a group or by none. Code governed by none is prologue,
unless there is no anchor at all. -/
def mappingOf (anchored : Bool) : Option AnchorGroup → Mapping
  | some g => g.mapping
  | none => if anchored then .prologue else .unmapped

/-- Walks over one instruction. Of the groups reached at once only the last governs. -/
def Walk.step (anchored : Bool) (w : Walk) (i : NativeInstruction) : Walk :=
  let reached := w.ahead.takeWhile fun g => g.offset ≤ i.offset
  let current := reached.getLast?.or w.current
  let gap := if w.covered < i.offset.toNat then [Stretch.gap w.covered i.offset.toNat] else []
  { ahead := w.ahead.dropWhile fun g => g.offset ≤ i.offset
    current
    covered := max w.covered i.stop
    stretches :=
      .code i (current.map AnchorGroup.offset) (mappingOf anchored current) :: gap ++ w.stretches
    misaligned := w.misaligned + (reached.length - 1)
    overlapping := w.overlapping + if i.offset.toNat < w.covered then 1 else 0 }

/-- Joins neighbouring instructions with one governing offset into entries. -/
def entriesOf : List Stretch → List Entry
  | [] => []
  | .gap start stop :: rest => ⟨start, stop, .unmapped, [], none⟩ :: entriesOf rest
  | .code i governed mapping :: rest =>
    let alone : Entry := ⟨i.offset.toNat, i.stop, mapping, [i], none⟩
    match rest, entriesOf rest with
    | .code _ governed' _ :: _, e :: entries =>
      if governed = governed' then
        { alone with stop := max i.stop e.stop, instructions := i :: e.instructions } :: entries
      else alone :: e :: entries
    | _, entries => alone :: entries

end CompileLog.Correlation

namespace CompileLog

open Correlation

/-- Correlates the instructions of one method with its anchors, both in any order. -/
def correlate (instructions : List NativeInstruction) (anchors : List Anchor) : Correlation :=
  let groups := groupAnchors anchors
  let walk := (instructions.mergeSort fun a b => a.offset ≤ b.offset).foldl
    (Walk.step !anchors.isEmpty) (.start groups)
  let pastEnd := (walk.ahead.filter fun g => walk.covered ≤ g.offset.toNat).length
  { entries := entriesOf walk.stretches.reverse
    anomalies :=
      { misaligned := walk.misaligned + (walk.ahead.length - pastEnd)
        pastEnd
        overlapping := walk.overlapping }
    instructionCount := instructions.length }

/-- Cuts a list into pieces of one length; the last may be shorter. -/
def inPieces {α : Type} (length : Nat) (xs : List α) : List (List α) :=
  if _more : 0 < length ∧ length < xs.length then
    xs.take length :: inPieces length (xs.drop length)
  else if xs.isEmpty then [] else [xs]
termination_by xs.length
decreasing_by simp only [List.length_drop]; omega

/-- Correlates many methods, shared out evenly among workers. The results follow the order of
the jobs. -/
def correlateAll (workers : Nat) (jobs : List (List NativeInstruction × List Anchor)) :
    List Correlation :=
  let share := (jobs.length + max 1 workers - 1) / max 1 workers
  (inPieces share jobs).flatMap fun piece => piece.map fun job => correlate job.1 job.2

end CompileLog

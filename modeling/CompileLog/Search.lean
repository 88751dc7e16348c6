/-!
# Binary search for a turning point

A predicate that holds on a first part of a list and fails on the rest turns at one point,
and halving finds it. On a list where the predicate changes back and forth the search still
ends, at a point that depends on the elements it looks at.
-/

namespace CompileLog

/-- Halves the range of `size` positions from `base` on until one position is left. -/
def bisect (holds : Nat → Bool) (base size : Nat) : Nat :=
  if _large : 1 < size then
    let half := size / 2
    bisect holds (if holds (base + half) then base + half else base) (size - half)
  else base
termination_by size
decreasing_by omega

/-- The turning point of a predicate on the first `size` positions. -/
def turningPoint (holds : Nat → Bool) (size : Nat) : Nat :=
  if size = 0 then 0
  else
    let base := bisect holds 0 size
    if holds base then base + 1 else base

end CompileLog

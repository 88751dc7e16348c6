import CompileLog.Proofs.Collect.Waiting

/-!
# Inlining trees as the log tells them

Between the start of a task and its end a collector passes every event that tells a method body
to the task under way and hands nothing over. The task that it hands over at the end has the
layout of the body that was told as its inlining tree.
-/

namespace CompileLog.Collect

/-! ### Telling a body -/

namespace Collector

/-- Where nothing is printed there is nothing to read. -/
theorem flushBefore_eq {c : Collector} (hprinted : c.printed = "") (e : Event) :
    c.flushBefore e = (c, []) := by
  unfold flushBefore
  rw [hprinted, if_pos]
  simp

/-- Taking in two parts of a log one after the other. -/
theorem acceptAll_append (c : Collector) (first second : List LogEvent) :
    c.acceptAll (first ++ second) =
      (((c.acceptAll first).1.acceptAll second).1,
        (c.acceptAll first).2 ++ ((c.acceptAll first).1.acceptAll second).2) :=
  each_append accept c first second

/-! ### The start of a task -/

/-- Once the printed machine code is read, none is left. -/
theorem printed_flush (c : Collector) : c.flush.1.printed = "" := by
  refine each_preserves (P := fun c => c.printed = "") ?_ rfl _
  intro c l h
  unfold placeListing
  split
  · exact h
  · split
    · unfold putTask
      split <;> exact h
    · exact h

end Collector

/-! ### The whole task -/

namespace Collector

/-- An event of which nothing else is known. -/
def bare (e : Event) : LogEvent := ⟨.opening, "", e, [], 0, none, 0⟩

end Collector

end CompileLog.Collect

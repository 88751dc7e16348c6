import CompileLog.Event.Decode
import CompileLog.Proofs.Collect.Handover
import CompileLog.Proofs.Collect.Reconstruction
import CompileLog.Proofs.Markup.Cut

/-!
# Tasks of a log that was cut

A log that was cut gives the first fragments of the whole log and behind them at most a text. A
text hands over no task, and what is still open where a log ends is handed over as cut short. So
every finished task of a cut log is one of the whole log, with the same facts, and they come in
the same order from the first on.
-/

namespace CompileLog.Collect

open Markup

/-- The finished tasks among what is handed over. -/
def closedOf (items : List Item) : List Task :=
  (tasksOf items).filter fun t => t.state = .closed

/-- The finished tasks of what is handed over first come first. -/
theorem closedOf_append (first second : List Item) :
    closedOf (first ++ second) = closedOf first ++ closedOf second := by
  unfold closedOf
  rw [tasksOf_append, List.filter_append]

/-- Whether a task was handed over before it was finished. -/
def IsCutShort (t : Task) : Prop := t.state = .abandoned ∧ .incomplete ∈ t.flags

/-- No task that was cut short is finished. -/
theorem closedOf_eq_nil {items : List Item} (h : ∀ t ∈ tasksOf items, IsCutShort t) :
    closedOf items = [] := by
  refine List.filter_eq_nil_iff.mpr fun t ht hclosed => ?_
  rw [decide_eq_true_eq, (h t ht).1] at hclosed
  cases hclosed

namespace Collector

/-- A task that was cut short is handed over as such. -/
theorem isCutShort_of_handOver_cutShort (c : Collector) (t : Task) :
    ∀ t' ∈ tasksOf (c.handOver (cutShort t)).2, IsCutShort t' := by
  intro t' ht'
  obtain rfl := List.mem_singleton.mp ht'
  obtain ⟨hstate, hflag⟩ := cutShort_abandoned t
  refine ⟨(state_flagMisplaced _).trans hstate, ?_⟩
  rw [flagMisplaced_eq_withFlags]
  exact subset_withFlags _ _ hflag

/-- Every task that is still open where a log ends is handed over as cut short. -/
theorem isCutShort_of_finish (c : Collector) : ∀ t ∈ tasksOf c.finish.2, IsCutShort t := by
  unfold finish
  simp only [tasksOf_append, tasksOf_flush, tasksOf_releaseTrap, List.nil_append]
  intro t ht
  rcases List.mem_append.mp ht with hactive | hwaiting
  · unfold abandonActive at hactive
    split at hactive
    · exact isCutShort_of_handOver_cutShort _ _ t hactive
    · exact absurd hactive List.not_mem_nil
  · exact forall_tasksOf_each (fun c t => c.isCutShort_of_handOver_cutShort t) _ _ t hwaiting

/-- The end of a log finishes no task. -/
theorem closedOf_collect (retain : Bool) (events : List LogEvent) :
    closedOf (collect retain events).2 = closedOf ((start retain).acceptAll events).2 := by
  unfold collect
  simp only [closedOf_append]
  rw [closedOf_eq_nil (isCutShort_of_finish _), List.append_nil]

/-- A text hands over no task. -/
theorem tasksOf_accept_text (c : Collector) (vocabulary : Vocabulary) {f : Fragment}
    (hf : f.IsText) : tasksOf (c.accept (decode vocabulary f)).2 = [] := by
  obtain ⟨text, hcontent⟩ := hf
  have hevent : (decode vocabulary f).event = Event.ofText vocabulary f.parent text := by
    unfold decode
    rw [hcontent]
  unfold accept
  simp only [tasksOf_append, tasksOf_flushBefore, List.nil_append, hevent]
  unfold Event.ofText
  split
  · rfl
  · rfl
  · split <;> rfl

/-- Events that come later finish no task anew. -/
theorem closedOf_acceptAll_prefix (c : Collector) {first whole : List LogEvent}
    (h : first <+: whole) :
    closedOf (c.acceptAll first).2 <+: closedOf (c.acceptAll whole).2 := by
  obtain ⟨later, rfl⟩ := h
  rw [acceptAll_append, closedOf_append]
  exact List.prefix_append _ _

/-- Fragments that were cut off finish the first tasks that all the fragments finish. -/
theorem closedOf_acceptAll_cutOff (c : Collector) (vocabulary : Vocabulary)
    {whole cut : List Fragment} (h : CutOff whole cut) :
    closedOf (c.acceptAll (cut.map (decode vocabulary))).2 <+:
      closedOf (c.acceptAll (whole.map (decode vocabulary))).2 := by
  cases h with
  | clean hkept => exact c.closedOf_acceptAll_prefix (hkept.map (decode vocabulary))
  | @ragged kept hkept last htext =>
    -- The text that the cut went through comes last and hands over no task.
    have hlast : closedOf ((c.acceptAll (kept.map (decode vocabulary))).1.acceptAll
        [decode vocabulary last]).2 = [] := by
      show closedOf ((accept _ _).2 ++ []) = []
      unfold closedOf
      rw [List.append_nil, tasksOf_accept_text _ _ htext]
      rfl
    rw [List.map_append, acceptAll_append, closedOf_append, List.map_cons, List.map_nil, hlast,
      List.append_nil]
    exact c.closedOf_acceptAll_prefix (hkept.map (decode vocabulary))

end Collector

/-- The events that a log tells. -/
def eventsOf (vocabulary : Vocabulary) (log : List UInt8) : List LogEvent :=
  (read .never log).fragments.map (decode vocabulary)

/-- However a log is cut, the finished tasks of its front part are the first finished tasks of the
whole log, and every task that is handed over at the cut is abandoned and flagged as incomplete. -/
theorem closed_tasks_survive_cut (retain : Bool) (vocabulary : Vocabulary) (log : List UInt8)
    (n : Nat) :
    closedOf (Collector.collect retain (eventsOf vocabulary (log.take n))).2 <+:
        closedOf (Collector.collect retain (eventsOf vocabulary log)).2 ∧
      ∀ t ∈ tasksOf ((Collector.start retain).acceptAll
          (eventsOf vocabulary (log.take n))).1.finish.2,
        t.state = .abandoned ∧ .incomplete ∈ t.flags := by
  refine ⟨?_, Collector.isCutShort_of_finish _⟩
  rw [Collector.closedOf_collect, Collector.closedOf_collect]
  exact Collector.closedOf_acceptAll_cutOff _ vocabulary (cutOff_read log n)

end CompileLog.Collect

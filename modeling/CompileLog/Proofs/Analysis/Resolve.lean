import CompileLog.Analysis.Resolve
import CompileLog.Proofs.Collect.Named
import CompileLog.Proofs.Session.Snapshots

/-!
# Methods are named by what is displayed

A history is kept under the method of the tasks in it. The methods of the tasks that logs hand over
are read back from the way they are displayed, and so are those of all histories that sessions and
snapshots give. So a compiled method is named by the way it is displayed, even if this is a part of
the way in which others are.
-/

namespace CompileLog

open Collect

/-- The method of a task that a log hands over is read back. -/
theorem Task.Logged.readsBack {t : Task} (h : t.Logged) : t.method.ReadsBack := by
  obtain ⟨retain, v, fragments, ht⟩ := h
  exact readsBack_of_collect retain v fragments t ht

/-- A remark leaves the method of a task alone. -/
theorem Task.method_addRemark (t : Task) (r : Remark) : (t.addRemark r).method = t.method := by
  cases r with
  | deopt d => rfl
  | native n => rfl
  | listing l => exact t.method_attachListing l

/-- So do the number of the reading and the remarks that waited for it. -/
theorem Index.method_completed (x : Index) (t : Task) : (x.completed t).method = t.method := by
  unfold completed
  refine Task.foldl_addRemark_of (Q := fun u => u.method = t.method) (fun u r hu => ?_) ?_ _
  · exact (u.method_addRemark r).trans hu
  · rfl

namespace Archive

/-- The method of each history is read back from the way it is displayed. -/
def Displayed (a : Archive) : Prop := ∀ m ∈ a.histories.values, m.method.ReadsBack

namespace Displayed

/-- Filing a task keeps it, if the method of the task is read back. -/
theorem recordTask {x : Index} (h : x.Displayed) {t : Task} (ht : t.method.ReadsBack) :
    (x.recordTask t).Displayed := by
  rw [x.recordTask_eq t]
  intro m hm
  rcases KeyMap.mem_values_insert hm with rfl | hbefore
  · rw [MethodHistory.method_insert]
    unfold Index.historyFor
    cases hfound : x.historyOf? (x.completed t).method with
    | none =>
      show (x.completed t).method.ReadsBack
      rwa [x.method_completed t]
    | some joined => exact h joined (KeyMap.mem_values_of_get? hfound)
  · exact h m hbefore

/-- No way of filing breaks it. -/
theorem archiveInvariant : ArchiveInvariant (fun t => t.method.ReadsBack) Displayed := by
  refine .of_remarked (fun hsame h => hsame.forall_histories h) (fun _ h => h)
    (fun _ t ht h => h.recordTask ht) ?_
  intro x y hremarked h
  cases hremarked with
  | putBack hfound hchanged =>
    intro m hm
    rcases KeyMap.mem_values_insert hm with rfl | hbefore
    · rw [hchanged.method_eq]
      exact h _ (KeyMap.mem_values_of_get? hfound)
    · exact h m hbefore
  | held hsame => exact hsame.forall_histories h

/-- It holds of every archive that sessions and snapshots give. -/
theorem of_reachable {a : Archive} (h : a.Reachable) : a.Displayed :=
  h.of_logged (archiveInvariant.weaken fun _ => Task.Logged.readsBack)
    (by simp [Displayed, Archive.empty])
    fun a ha => (Snapshot.ofArchive a).forall_histories_toArchive_of fun m hm => ha m hm

end Displayed

/-- A method with a history is named by the way it is displayed, if that is read back. -/
theorem resolve_display {a : Archive} {m : Method} (hreads : m.ReadsBack)
    (hhistory : (a.historyOf? m).isSome = true) : a.resolve m.display = .ok m := by
  have hexact : a.exactMethod? m.display = some m := by
    unfold exactMethod?
    rw [hreads, Option.filter_some, if_pos hhistory]
  unfold resolve
  rw [hexact]

end Archive

/-- Every compiled method is named by the way it is displayed. Whatever archive sessions and
snapshots give, whatever logs were read and with whatever configurations, the method of each history
is what the whole displayed form of it names, however many other methods have this text in
theirs. -/
theorem displayed_methods_resolve {a : Archive} (h : a.Reachable) :
    ∀ m ∈ a.allHistories, a.resolve m.method.display = .ok m.method := by
  intro m hm
  refine Archive.resolve_display (Archive.Displayed.of_reachable h m hm) ?_
  have hfound : a.historyOf? m.method = some m := h.sound.keyed.get?_method hm
  rw [hfound]
  rfl

/-- A method whose displayed form is a part of that of another one is named by it, and so are both
the other one and the stand-in for a method that the log does not name. -/
theorem displayed_methods_resolve_contained :
    let log := Text.Utf8.encode
      ("<task compile_id='7' method='A a ()V'/><task compile_id='8' method='BA a ()V'/>" ++
        "<task compile_id='9'/>")
    ∃ s, Session.start .usual = .ok s ∧
      let archive := (s.readLog "log" .never log).finish.1
      (archive.methods = [.unresolved, ⟨"A", "a", "()V"⟩, ⟨"BA", "a", "()V"⟩] ∧
        archive.findMethods "A a ()V" = [⟨"A", "a", "()V"⟩, ⟨"BA", "a", "()V"⟩]) ∧
        ∀ m ∈ archive.allHistories, archive.resolve m.method.display = .ok m.method := by
  intro log
  have hstart : Session.start .usual =
      .ok ⟨.usual, .builtin, .empty Index.defaultCapacity, []⟩ := rfl
  refine ⟨_, hstart, ?_⟩
  intro archive
  have hread : archive.Reachable := .read hstart [(.memory "log" log, .never)]
  exact ⟨by decide +kernel, displayed_methods_resolve hread⟩

end CompileLog

import CompileLog.Proofs.History.Numbers
import CompileLog.Proofs.Session.Snapshots

/-!
# Looking up a task in a loaded snapshot

What an archive knows of task numbers is not in its snapshot. A loaded snapshot answers for the same
numbers, each with a task of the last reading that used it. It is the same task as before where only
one method has tasks with the number in that reading; else it is the first of these in the order of
methods, while the archive that was written answers with a task of the method that was filed first.
-/

namespace CompileLog

open Collect Markup

/-- What an archive that sessions and snapshots give knows of numbers fits its tasks. -/
theorem Archive.Reachable.numbered {a : Archive} (h : a.Reachable) :
    a.Sound ∧ a.Owned ∧ a.Numbered := by
  have howned := Owned.archiveInvariant.weaken fun (t : Task) (_ : t.Linked) => trivial
  have hnumbered := Numbered.archiveInvariant.weaken fun (t : Task) (_ : t.Linked) => trivial
  have hall := Sound.archiveInvariant.and (howned.and hnumbered)
  refine h.of_invariant hall ⟨.empty, Index.owned_empty 0, .empty⟩ ?_
  rintro a ⟨hsound, _, _⟩
  have hsame : a.reloaded.Same a := hsound.same_toArchive
  exact ⟨hsound.reload, owned_reloaded hsound.keyed hsame, numbered_reloaded hsame⟩

/-- Looking up numbers after a reload. The bytes of the snapshot of an archive that sessions and
snapshots give are read, and the archive loaded from them finds a task for the same numbers. It is
the first task, in the order of methods, that has the number in the reading of the task found before,
and so the same task where no other method has tasks with the number in that reading. -/
theorem tasks_found_after_reload {a : Archive} (h : a.Reachable) (hcount : a.Countable) :
    ∃ stored, Snapshot.read (Snapshot.ofArchive a).bytes = .ok stored ∧ ∀ id,
      (stored.toArchive.task? id).isSome = (a.task? id).isSome ∧
      stored.toArchive.task? id =
        ((a.task? id).bind fun t => a.tasks.find? (Task.isNamed id t.pass)) ∧
      (a.Unambiguous id → stored.toArchive.task? id = a.task? id) := by
  obtain ⟨hsound, howned, hnumbered⟩ := h.numbered
  have hsame : a.reloaded.Same a := hsound.same_toArchive
  refine ⟨_, Snapshot.read_bytes rfl (hsound.fits hcount), fun id => ?_⟩
  have htask := a.task?_reloaded hsound.keyed hsame howned hnumbered id
  have hpass := a.pass_owners_reloaded howned hnumbered id
  have howned' := a.owned_reloaded hsound.keyed hsame
  refine ⟨?_, htask.trans (a.bind_task?_find? howned id).symm,
    fun hone => htask.trans (hone.find?_eq hsound.keyed howned)⟩
  have hsome := congrArg Option.isSome hpass
  rw [Option.isSome_map, Option.isSome_map] at hsome
  rw [howned.isSome_task?, ← hsome]
  exact howned'.isSome_task?

/-- Two methods use one number, in two readings: the number means the task of the second reading,
also once the snapshot is loaded. -/
theorem tasks_found_after_reload_sameNumberLater :
    let first := Text.Utf8.encode "<task compile_id='1' method='A a ()V'><task_done/></task>"
    let second := Text.Utf8.encode "<task compile_id='1' method='B b ()V'><task_done/></task>"
    let sources : List (LogSource × Cancellation) :=
      [(.memory "first" first, .never), (.memory "second" second, .never)]
    let archive := ((Session.fresh .usual .builtin).readSources sources).finish.1
    archive.Countable ∧ archive.Unambiguous 1 ∧
      ∃ stored, Snapshot.read (Snapshot.ofArchive archive).bytes = .ok stored ∧
        (archive.task? 1).isSome ∧ stored.toArchive.task? 1 = archive.task? 1 := by
  intro first second sources archive
  have hstart : Session.start .usual = .ok (Session.fresh .usual .builtin) := rfl
  have hcount : archive.Countable ∧ archive.Unambiguous 1 ∧ (archive.task? 1).isSome := by
    decide +kernel
  obtain ⟨stored, hread, hfound⟩ := tasks_found_after_reload (.read hstart sources) hcount.1
  exact ⟨hcount.1, hcount.2.1, stored, hread, hcount.2.2, (hfound 1).2.2 hcount.2.1⟩

/-- Two methods use one number in one reading: the number means the task that was filed first, and
once the snapshot is loaded the other one. -/
theorem task_exchanged_by_reload :
    let log := Text.Utf8.encode
      ("<task compile_id='1' method='B b ()V'><task_done/></task>" ++
        "<task compile_id='1' method='A a ()V'><task_done/></task>")
    ∃ s, Session.start .usual = .ok s ∧
      let archive := (s.readSources [(.memory "<memory>" log, .never)]).finish.1
      ∃ stored, Snapshot.read (Snapshot.ofArchive archive).bytes = .ok stored ∧
        (archive.task? 1).map Task.method = some ⟨"B", "b", "()V"⟩ ∧
        (stored.toArchive.task? 1).map Task.method = some ⟨"A", "a", "()V"⟩ := by
  intro log
  have hstart : Session.start .usual = .ok (Session.fresh .usual .builtin) := rfl
  refine ⟨_, hstart, ?_⟩
  intro archive
  have hreachable : archive.Reachable := .read hstart _
  have htold : archive.Countable ∧ (archive.task? 1).map Task.method = some ⟨"B", "b", "()V"⟩ ∧
      (archive.reloaded.task? 1).map Task.method = some ⟨"A", "a", "()V"⟩ := by
    decide +kernel
  exact ⟨_, Snapshot.read_bytes rfl (hreachable.sound.fits htold.1), htold.2.1, htold.2.2⟩

end CompileLog

import CompileLog.Proofs.History.Provenance
import CompileLog.Proofs.Session.Acts

/-!
# Readings and the events on their tasks

A session reads one source after the other. The tasks of one reading take the events that this
reading yields, and those that an earlier one left waiting under their numbers: the table of what
waits is not emptied where a reading begins. A later reading adds no event to them, and they add
none to the tasks of earlier ones.
-/

namespace CompileLog

open Collect Markup

/-- A session that there can be. -/
inductive Session.Arises : Session → Prop where
  /-- A session starts. -/
  | start {config : Config} {s : Session} (hs : Session.start config = .ok s) : Arises s
  /-- A session goes on with what a snapshot holds. -/
  | load (snapshot : Snapshot) {config : Config} {s : Session}
      (hs : Session.resume config snapshot.toArchive = .ok s) : Arises s
  /-- A session goes on with what another one finished. -/
  | goOn {s s' : Session} (h : Arises s) {config : Config}
      (hs : Session.resume config s.finish.1 = .ok s') : Arises s'
  /-- A session reads some sources. -/
  | read {s : Session} (h : Arises s) (sources : List (LogSource × Cancellation)) :
      Arises (s.readSources sources)

/-- A session that there can be, which may read some more sources: the numbers of these readings fit
the 32 bits that they are stored with. Those of earlier readings are smaller and fit as well. -/
structure Session.HasRoom (s : Session) (readings : Nat) : Prop where
  /-- There can be such a session. -/
  arises : s.Arises
  /-- No number is too great. -/
  fits : s.index.pass + readings < UInt32.size

namespace Session

/-- Whether a task with a number is among what a session files of a reading. -/
def files (s : Session) (r : Reading) (id : UInt64) : Bool :=
  (tasksOf (s.yields r)).any fun t => t.compileId = id

/-- An invariant that holds before anything is filed, and of what a snapshot holds, holds of what
every session writes. By induction on how the session arises. -/
theorem Arises.of_invariant {P : Archive → Prop} (hP : ArchiveInvariant Task.Linked P)
    (hempty : P .empty) (hload : ∀ snapshot : Snapshot, P snapshot.toArchive) {s : Session}
    (h : s.Arises) : P s.index.toArchive := by
  induction h with
  | @start config s hs =>
    have hindex : s.index = .empty config.pendingCapacity := index_of_withIndex hs
    rw [hindex]
    exact hempty
  | load snapshot hs => exact hP.resume (hload snapshot) hs
  | goOn _ hs ih => exact hP.resume (hP.finish ih) hs
  | read _ sources ih => exact hP.readSources ih sources

/-- Every task that a session has filed bears the number of a reading that has begun. -/
theorem Arises.pass_le {s : Session} (h : s.Arises) :
    ∀ m ∈ s.index.histories.values, ∀ t ∈ m.tasks, t.pass ≤ s.index.pass := by
  have htasks := ArchiveInvariant.of_tasks (Q := fun _ => True) (fun _ _ _ => trivial)
    (fun _ _ _ => trivial)
  have hlinked := htasks.weaken fun (t : Task) (_ : t.Linked) => trivial
  have hall := h.of_invariant hlinked (by simp [Archive.empty]) fun snapshot =>
    snapshot.forall_tasks_toArchive fun _ _ _ _ => trivial
  exact fun m hm t ht => (hall m hm t ht).2

/-- A reading files what it yields. -/
theorem sameFiled_take (s : Session) (name : String) (r : Reading) :
    SameFiled (s.take name r).index.toArchive
      ((s.yields r).foldl Index.record s.index.beginPass).toArchive :=
  Index.sameFiled_recordHeader _ _

/-- A reading brings what it yields to its tasks, and what waited under their numbers. -/
theorem reach_take {s : Session} (h : s.Arises) (name : String) (r : Reading) :
    ((s.take name r).index.attachedIn (s.take name r).index.pass).Subperm
      ((s.yields r).flatMap Item.deopts ++ s.index.waitingFor (s.files r)) := by
  have hnumbers : ∀ t ∈ tasksOf (s.yields r), s.files r t.compileId = true := fun t ht =>
    List.any_eq_true.mpr ⟨t, ht, decide_eq_true rfl⟩
  have hfiled := Index.reach_foldl_record (s.yields r) s.index.beginPass hnumbers
  have hbegun : s.index.beginPass.reach (s.files r) = s.index.waitingFor (s.files r) := by
    have hnone : s.index.beginPass.attachedIn s.index.beginPass.pass = [] :=
      Archive.attachedIn_of_forall_le (a := s.index.toArchive) h.pass_le (Nat.lt_succ_self _)
    unfold Index.reach
    rw [hnone]
    rfl
  have hsame := s.sameFiled_take name r
  rw [hbegun] at hfiled
  rw [hsame.attachedIn_eq, hsame.pass_eq]
  exact (List.sublist_append_left _ _).subperm.trans hfiled

/-- A reading begins with the next number. -/
theorem pass_take (s : Session) (name : String) (r : Reading) :
    (s.take name r).index.pass = s.index.pass + 1 :=
  (s.sameFiled_take name r).pass_eq.trans (Index.pass_foldl_record _ _)

/-- Each source is one reading at most. By induction on the sources. -/
theorem pass_readSources_le (s : Session) (sources : List (LogSource × Cancellation)) :
    (s.readSources sources).index.pass ≤ s.index.pass + sources.length := by
  induction sources generalizing s with
  | nil => exact Nat.le_refl _
  | cons source rest ih =>
    unfold readSources readSource
    rw [List.foldl_cons, List.length_cons]
    cases source.1.opened source.2 with
    | error reason => exact (ih s).trans (by omega)
    | ok r =>
      have hpass := s.pass_take source.1.name r
      exact (ih (s.take source.1.name r)).trans (by omega)

/-- Readings leave what is attached to the tasks of earlier readings as it is. -/
theorem attachedIn_readSources (s : Session) (sources : List (LogSource × Cancellation))
    {pass : Nat} (hpass : pass ≤ s.index.pass) :
    ((s.readSources sources).index.attachedIn pass).Perm (s.index.attachedIn pass) := by
  have hinvariant := (ArchiveInvariant.attachedIn pass (s.index.attachedIn pass)).weaken
    fun (t : Task) (_ : t.Linked) => trivial
  have hkept := readSources_keeps (P := fun s' =>
    pass ≤ s'.index.pass ∧ (s'.index.attachedIn pass).Perm (s.index.attachedIn pass))
    (fun s' name r h => ?_) ⟨hpass, .refl _⟩ sources
  · exact hkept.2
  · obtain ⟨hlt, hfiled⟩ := hinvariant.take_of_begun (s := s')
      ⟨Nat.lt_succ_of_le h.1, h.2⟩ name r
    exact ⟨Nat.le_of_lt hlt, hfiled⟩

end Session

/-- Where the events on the tasks of a reading come from. Whatever a session has read and reads
afterwards, as long as it has room for these readings, the events that are attached in the end to
the tasks of one reading are, each as often as it came, among those that this reading yielded and
those that waited when it began under the number of a task that it filed. Tasks of earlier readings
keep the events that they had. The number of the last reading fits 32 bits in the end. -/
theorem events_bound_by_readings {s : Session} (after : List (LogSource × Cancellation))
    (h : s.HasRoom (after.length + 1)) {source : LogSource} {cancel : Cancellation} {r : Reading}
    (hr : source.opened cancel = .ok r) :
    let archive := (s.readSources ((source, cancel) :: after)).finish.1
    (archive.attachedIn (s.index.pass + 1)).Subperm
        ((s.yields r).flatMap Item.deopts ++ s.index.waitingFor (s.files r)) ∧
      (∀ pass ≤ s.index.pass, (archive.attachedIn pass).Perm (s.index.attachedIn pass)) ∧
      archive.pass < UInt32.size := by
  intro archive
  have hread : s.readSources ((source, cancel) :: after) =
      (s.take source.name r).readSources after := by
    unfold Session.readSources
    rw [List.foldl_cons]
    simp only [Session.readSource, hr]
  have hpass := s.pass_take source.name r
  have hrest : ∀ pass ≤ s.index.pass + 1,
      (archive.attachedIn pass).Perm ((s.take source.name r).index.attachedIn pass) := by
    intro pass hle
    have hfreeze := (s.readSources ((source, cancel) :: after)).index.sameFiled_freeze
    have hkept := (s.take source.name r).attachedIn_readSources after (hpass ▸ hle)
    rw [← hread] at hkept
    exact (List.Perm.of_eq (hfreeze.attachedIn_eq pass)).trans hkept
  refine ⟨?_, fun pass hle => ?_, ?_⟩
  · have hfiled := Session.reach_take h.arises source.name r
    rw [hpass] at hfiled
    exact (hrest _ (Nat.le_refl _)).subperm.trans hfiled
  · have hone := s.attachedIn_readSources [(source, cancel)] hle
    simp only [Session.readSources, List.foldl_cons, List.foldl_nil, Session.readSource, hr]
      at hone
    exact (hrest pass (by omega)).trans hone
  · have hlast := s.pass_readSources_le ((source, cancel) :: after)
    have hfreeze := (s.readSources ((source, cancel) :: after)).index.sameFiled_freeze
    exact hfreeze.pass_eq ▸ Nat.lt_of_le_of_lt hlast h.fits

/-- A first log leaves an event waiting, and another one hits its task. The second log uses both
numbers again. -/
theorem events_bound_by_readings_sameNumbers :
    let first := Text.Utf8.encode
      ("<make_not_entrant compile_id='7'/><task compile_id='8' method='A a ()V'><task_done/></task>" ++
        "<make_not_entrant compile_id='8'/>")
    let second := Text.Utf8.encode
      ("<task compile_id='7' method='A a ()V'/><task compile_id='8' method='A a ()V'/>" ++
        "<deoptimized compile_id='8'/>")
    let s := (Session.fresh .usual .builtin).readSources [(.memory "first" first, .never)]
    let r := read .never second
    let archive := (s.readSources [(.memory "second" second, .never)]).finish.1
    s.HasRoom 1 ∧ (LogSource.memory "second" second).opened .never = .ok r ∧
      (archive.attachedIn (s.index.pass + 1)).Subperm
        ((s.yields r).flatMap Item.deopts ++ s.index.waitingFor (s.files r)) ∧
      (∀ pass ≤ s.index.pass, (archive.attachedIn pass).Perm (s.index.attachedIn pass)) ∧
      archive.pass < UInt32.size := by
  intro first second s r archive
  have hstart : Session.start .usual = .ok (Session.fresh .usual .builtin) := rfl
  have hroom : s.HasRoom 1 :=
    ⟨.read (.start hstart) [(.memory "first" first, .never)], by decide +kernel⟩
  have hopened : (LogSource.memory "second" second).opened .never = .ok r := rfl
  exact ⟨hroom, hopened, events_bound_by_readings [] hroom hopened⟩

/-- An event that a first log left waiting is attached to the task of its number in a second log,
which yields no event at all, and takes its code out of service. -/
theorem event_bound_across_readings :
    let first := Text.Utf8.encode "<make_not_entrant compile_id='7'/>"
    let second := Text.Utf8.encode
      "<task compile_id='7' method='A a ()V'><task_done/></task>"
    ∃ s, Session.start .usual = .ok s ∧
      let s' := s.readLog "first" .never first
      let archive := (s'.readLog "second" .never second).finish.1
      (s'.yields (read .never second)).flatMap Item.deopts = [] ∧
        (archive.attachedIn 2).length = 1 ∧
        (∃ t ∈ archive.task? 7, t.pass = 2 ∧ t.succeeded ∧ t.isInvalidated) ∧
        archive.currentTaskOf? ⟨"A", "a", "()V"⟩ = none := by
  intro first second
  refine ⟨Session.fresh .usual .builtin, rfl, ?_⟩
  decide +kernel

end CompileLog

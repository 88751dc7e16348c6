import CompileLog.Proofs.History.Current
import CompileLog.Proofs.History.Reload
import CompileLog.Proofs.History.Tasks
import CompileLog.Proofs.Session.Acts
import CompileLog.Proofs.Snapshot.Archive
import Mathlib.Tactic.MkIffOfInductiveProp

/-!
# Snapshots of what sessions read

What a session does to its index is a sequence of acts, and the tasks that it files are those that
logs hand over. So every archive that sessions and snapshots can give is sound: what a snapshot
leaves out of it follows from what it holds, and all its numbers fit the stored form as long as
nothing is counted beyond that. It survives its snapshot.
-/

namespace CompileLog

open Collect Markup

/-! ### Numbers of the stored form -/

/-- The links of a forest lie among its call sites. -/
theorem InlineTree.Linked.fits {t : InlineTree} (h : t.Linked)
    (hsize : t.nodes.size < UInt32.size) : t.Fits := by
  refine ⟨fun id hid => (h.topLevel_lt_size hid).trans hsize, fun n hn => ?_⟩
  obtain ⟨i, hi⟩ := Array.mem_iff_getElem?.mp hn
  have hplace := lt_size_of_node? hi
  have hid := h.id_eq hi
  have hdepth := h.depth_le hi
  exact ⟨by omega, fun p hp => (h.parent_lt_size hi hp).trans hsize,
    fun c hc => (h.child_lt_size hi hc).trans hsize, by omega⟩

/-- A task whose links are those of a forest fits the stored form if its call sites and the readings
are few enough. -/
theorem Task.Linked.fits {t : Task} (h : t.Linked) (hsize : t.tree.nodes.size < UInt32.size)
    (hpass : t.pass < UInt32.size) : t.Fits := by
  refine ⟨h.tree.fits hsize, fun f hf node hnode => ?_, hpass⟩
  cases f with
  | structurallyInconsistent node' bci callerSize =>
    obtain rfl := Option.some.inj hnode
    exact (h.flags _ _ _ hf).trans hsize
  | _ => cases hnode

/-- Nothing in an archive is counted beyond the numbers of the stored form. -/
@[mk_iff] structure Archive.Countable (a : Archive) : Prop where
  /-- The readings. -/
  pass : a.pass < UInt32.size
  /-- The events that were given up. -/
  dropped : a.dropped < UInt64.size
  /-- The tasks of each history. -/
  tasks : ∀ h ∈ a.allHistories, h.tasks.length ≤ UInt64.size
  /-- The call sites of each task. -/
  sites : ∀ h ∈ a.allHistories, ∀ t ∈ h.tasks, t.tree.nodes.size < UInt32.size

instance (a : Archive) : Decidable a.Countable := decidable_of_iff _ (a.countable_iff).symm

/-! ### Sound archives -/

/-- No remark is on a call site. -/
theorem Task.Linked.addRemark {t : Task} (h : t.Linked) (r : Remark) : (t.addRemark r).Linked := by
  cases r with
  | deopt d => exact h.annotated (.of_eq rfl rfl rfl rfl)
  | native n => exact h.annotated (.of_eq rfl rfl rfl rfl)
  | listing l => exact h.annotated (.attachListing l t)

/-- What holds of every archive that readings give. -/
structure Archive.Sound (a : Archive) : Prop where
  /-- The links of each task are those of a forest, and it bears the number of a reading that has
  begun. -/
  tasks : ∀ h ∈ a.histories.values, ∀ t ∈ h.tasks, t.Linked ∧ t.pass ≤ a.pass
  /-- Each history is kept under its method. -/
  keyed : a.Keyed
  /-- The right code is in service. -/
  inService : ∀ h ∈ a.histories.values, InService h.tasks h.current

/-- An archive is sound if it is in each way. -/
theorem Archive.sound_iff {a : Archive} :
    a.Sound ↔ (∀ h ∈ a.histories.values, ∀ t ∈ h.tasks, t.Linked ∧ t.pass ≤ a.pass) ∧ a.Keyed ∧
      ∀ h ∈ a.histories.values, InService h.tasks h.current :=
  ⟨fun h => ⟨h.tasks, h.keyed, h.inService⟩, fun h => ⟨h.1, h.2.1, h.2.2⟩⟩

namespace Archive.Sound

variable {a : Archive}

/-- The archive that holds nothing. -/
theorem empty : Archive.empty.Sound := by
  refine ⟨?_, Keyed.empty, ?_⟩
  · simp [Archive.empty]
  · simp [Archive.empty]

/-- Filing tasks whose links are those of a forest keeps an archive sound. -/
theorem archiveInvariant : ArchiveInvariant Task.Linked Archive.Sound := by
  have htasks := ArchiveInvariant.of_tasks (Q := Task.Linked)
    (fun _ _ ht => ht.congr rfl rfl fun _ _ _ hf => hf) fun _ r ht => ht.addRemark r
  have hkeyed := Keyed.archiveInvariant.weaken fun (t : Task) (_ : t.Linked) => trivial
  have hservice := historyInvariant_inService.archiveInvariant.weaken
    fun (t : Task) (_ : t.Linked) => trivial
  have hall := htasks.and (hkeyed.and hservice)
  simp only [← sound_iff] at hall
  exact hall

/-- The archive of the snapshot of a sound archive is sound. -/
theorem reload (h : a.Sound) : (Snapshot.ofArchive a).toArchive.Sound where
  tasks := (Snapshot.ofArchive a).forall_tasks_toArchive fun m hm t ht => (h.tasks m hm t ht).1
  keyed := Keyed.toArchive _
  inService := (Snapshot.ofArchive a).forall_histories_toArchive
    (P := fun m => InService m.tasks m.current) fun m => inService_findCurrent? m.tasks

/-- The snapshot of a sound archive fits the stored form where nothing is counted beyond it. -/
theorem fits (h : a.Sound) (hcount : a.Countable) : (Snapshot.ofArchive a).Fits := by
  refine ⟨fun m hm => ⟨fun t ht => ?_, fun i hi => ?_⟩, hcount.dropped⟩
  · obtain ⟨hlinked, hpass⟩ := h.tasks m hm t ht
    exact hlinked.fits (hcount.sites m hm t ht) (hpass.trans_lt hcount.pass)
  · have hservice := h.inService m hm
    rw [hi] at hservice
    obtain ⟨t, ht, _⟩ := hservice.liveAt
    exact (List.getElem?_eq_some_iff.mp ht).1.trans_le (hcount.tasks m hm)

/-- A sound archive is what its snapshot holds. -/
theorem same_toArchive (h : a.Sound) : (Snapshot.ofArchive a).toArchive.Same a :=
  h.keyed.same_of_inService h.inService

end Archive.Sound

/-! ### Archives that sessions give -/

/-- An archive that sessions and snapshots give. -/
inductive Archive.Reachable : Archive → Prop where
  /-- A session starts and reads some sources. -/
  | read {config : Config} {s : Session} (hs : Session.start config = .ok s)
      (sources : List (LogSource × Cancellation)) : Reachable (s.readSources sources).finish.1
  /-- A session goes on writing into such an archive. -/
  | readOn {a : Archive} (h : Reachable a) {config : Config} {s : Session}
      (hs : Session.resume config a = .ok s) (sources : List (LogSource × Cancellation)) :
      Reachable (s.readSources sources).finish.1
  /-- The snapshot of such an archive is loaded. -/
  | reloaded {a : Archive} (h : Reachable a) : Reachable (Snapshot.ofArchive a).toArchive

/-- The archive that one log gives is one that sessions give. -/
theorem Archive.Reachable.readLog {config : Config} {s : Session}
    (hs : Session.start config = .ok s) (name : String) (log : List UInt8) :
    (s.readLog name .never log).finish.1.Reachable :=
  .read hs [(.memory name log, .never)]

/-- An invariant that holds before anything is filed, and where a snapshot is loaded, holds of every
archive that sessions and snapshots give, as the tasks filed are those that logs hand over. By
induction on how it is given. -/
theorem Archive.Reachable.of_logged {P : Archive → Prop} (hP : ArchiveInvariant Task.Logged P)
    (hempty : P .empty) (hreload : ∀ a, P a → P (Snapshot.ofArchive a).toArchive) {a : Archive}
    (h : a.Reachable) : P a := by
  induction h with
  | @read config s hs sources =>
    have hindex : s.index = .empty config.pendingCapacity := Session.index_of_withIndex hs
    have hstart : P s.index.toArchive := by
      rw [hindex]
      exact hempty
    exact hP.finish (hP.readSources_logged hstart sources)
  | readOn _ hs sources ih => exact hP.finish (hP.readSources_logged (hP.resume ih hs) sources)
  | reloaded _ ih => exact hreload _ ih

/-- So does one that holds wherever the links of the tasks filed are those of a forest. -/
theorem Archive.Reachable.of_invariant {P : Archive → Prop} (hP : ArchiveInvariant Task.Linked P)
    (hempty : P .empty) (hreload : ∀ a, P a → P (Snapshot.ofArchive a).toArchive) {a : Archive}
    (h : a.Reachable) : P a :=
  h.of_logged (hP.weaken fun _ => Task.Logged.linked) hempty hreload

/-- Every archive that sessions and snapshots give is sound. -/
theorem Archive.Reachable.sound {a : Archive} (h : a.Reachable) : a.Sound :=
  h.of_invariant Sound.archiveInvariant .empty fun _ h => h.reload

/-- The links of every task that sessions and snapshots give are those of a forest. -/
theorem Archive.Reachable.linked {a : Archive} (h : a.Reachable) {t : Task} (ht : t ∈ a.tasks) :
    t.tree.Linked := by
  obtain ⟨m, hm, htm⟩ := List.mem_flatMap.mp ht
  exact (h.sound.tasks m hm t htm).1.tree

/-- Every archive that sessions and snapshots give survives its snapshot: the bytes of the snapshot
are read as that snapshot, and its archive is the same archive. Nothing may be counted beyond the
stored form, whose numbers have 32 or 64 bits: those of this library have no bound. -/
theorem archives_survive_snapshots {a : Archive} (h : a.Reachable) (hcount : a.Countable) :
    Snapshot.read (Snapshot.ofArchive a).bytes = .ok (Snapshot.ofArchive a) ∧
      (Snapshot.ofArchive a).toArchive.Same a := by
  have hsound := h.sound
  exact ⟨Snapshot.read_bytes rfl (hsound.fits hcount), hsound.same_toArchive⟩

/-- A log of a task that inlines a call and is hit by an event is read, the snapshot is loaded, and
reading goes on with a log that uses the number again and ends before the task. -/
theorem archives_survive_snapshots_readOn :
    let first := Text.Utf8.encode
      ("<task compile_id='7' method='A a ()V'><parse><inline_success reason='&quot;'/></parse>" ++
        "<task_done/></task><make_not_entrant compile_id='7'/>")
    let second := Text.Utf8.encode
      "<task compile_id='7' method='A a ()V'/><deoptimized compile_id='8'/>"
    ∃ s s', Session.start .usual = .ok s ∧
      Session.resume .usual
        (Snapshot.ofArchive (s.readLog "first" .never first).finish.1).toArchive = .ok s' ∧
      let archive := (s'.readLog "second" .never second).finish.1
      archive.Countable ∧
        Snapshot.read (Snapshot.ofArchive archive).bytes = .ok (Snapshot.ofArchive archive) ∧
        (Snapshot.ofArchive archive).toArchive.Same archive := by
  intro first second
  have hstart : Session.start .usual =
      .ok ⟨.usual, .builtin, .empty Index.defaultCapacity, []⟩ := rfl
  have hresume : ∀ a, Session.resume .usual a =
      .ok ⟨.usual, .builtin, a.thaw Index.defaultCapacity, []⟩ := fun _ => rfl
  refine ⟨_, _, hstart, hresume _, ?_⟩
  intro archive
  have hcount : archive.Countable := by decide +kernel
  have hread := Archive.Reachable.read hstart [(.memory "first" first, .never)]
  have hreadOn : archive.Reachable :=
    .readOn hread.reloaded (hresume _) [(.memory "second" second, .never)]
  exact ⟨hcount, archives_survive_snapshots hreadOn hcount⟩

end CompileLog

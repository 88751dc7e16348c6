import CompileLog.Proofs.Collect.Links
import CompileLog.Proofs.History.Run
import CompileLog.Proofs.Session.Passes

/-!
# Readings as acts

What a session does to its index is a sequence of acts, and the tasks that it files are those that
logs hand over, with the links of a forest. So what the acts keep of an archive, where such tasks
are filed, sessions keep as well: over a reading, over many, and where writing ends or resumes.
-/

namespace CompileLog

open Collect Markup

namespace Session

/-- What a session files of a reading. -/
def yields (s : Session) (r : Reading) : List Item :=
  (Collector.collect s.config.keepListings (r.fragments.map (decode s.vocabulary))).2

/-- What is done to the index when a reading is filed, once it has begun. -/
def recordingActs (c : Collector) (items : List Item) : List Act :=
  items.map .record ++ [.recordHeader c.header]

/-- Filing a reading does just that. -/
theorem run_recordingActs (x : Index) (c : Collector) (items : List Item) :
    (Store.writing x.beginPass).run (recordingActs c items) = .writing (file x c items) := by
  rw [recordingActs, Store.run_append, Store.run_record]
  rfl

/-- What holds of every task that a log hands over holds of the tasks that a reading files. -/
theorem files_recordingActs {T : Task → Prop} (c : Collector) {items : List Item}
    (hT : ∀ t ∈ tasksOf items, T t) : ∀ a ∈ recordingActs c items, a.Files T := by
  intro a ha
  unfold recordingActs at ha
  simp only [List.mem_append, List.mem_map, List.mem_cons, List.not_mem_nil, or_false] at ha
  rcases ha with ⟨item, hitem, rfl⟩ | rfl
  · cases item with
    | task t => exact hT t (List.mem_filterMap.mpr ⟨_, hitem, rfl⟩)
    | _ => trivial
  · trivial

/-- A session goes on with the index that it was given. -/
theorem index_of_withIndex {config : Config} {x : Index} {s : Session}
    (h : withIndex config x = .ok s) : s.index = x := by
  unfold withIndex at h
  cases hvocabulary : config.vocabulary with
  | error e =>
    rw [hvocabulary] at h
    cases h
  | ok vocabulary =>
    rw [hvocabulary] at h
    obtain rfl := Except.ok.inj h
    rfl

end Session

/-! ### What sessions keep -/

/-- A task that some log hands over. -/
def Task.Logged (t : Task) : Prop :=
  ∃ (retain : Bool) (v : Vocabulary) (fragments : List Fragment),
    t ∈ tasksOf (Collector.collect retain (fragments.map (decode v))).2

/-- The links of such a task are those of a forest. -/
theorem Task.Logged.linked {t : Task} (h : t.Logged) : t.Linked := by
  obtain ⟨retain, v, fragments, ht⟩ := h
  exact linked_of_collect retain _ t ht

namespace ArchiveInvariant

variable {P : Archive → Prop}

section

variable (hP : ArchiveInvariant Task.Logged P)
include hP

/-- What holds once a reading has begun holds once its tasks are filed. -/
theorem take_of_begun_logged {s : Session} (h : P s.index.beginPass.toArchive) (name : String)
    (r : Reading) : P (s.take name r).index.toArchive := by
  have hlogged : ∀ t ∈ tasksOf (s.yields r), t.Logged := fun t ht => ⟨_, _, _, ht⟩
  have hread := hP.run (s := .writing s.index.beginPass) h (Session.files_recordingActs
    (Collector.collect s.config.keepListings (r.fragments.map (decode s.vocabulary))).1 hlogged)
  rw [Session.run_recordingActs] at hread
  exact hread

/-- Readings keep an invariant of the archive that is written, where tasks are filed that logs hand
over. -/
theorem readSources_logged {s : Session} (h : P s.index.toArchive)
    (sources : List (LogSource × Cancellation)) : P (s.readSources sources).index.toArchive :=
  Session.readSources_keeps (P := fun s => P s.index.toArchive)
    (fun s name r h => hP.take_of_begun_logged (hP.beginPass s.index h) name r) h sources

end

section

variable (hP : ArchiveInvariant Task.Linked P)
include hP

/-- What holds once a reading has begun holds once it is filed. -/
theorem take_of_begun {s : Session} (h : P s.index.beginPass.toArchive) (name : String)
    (r : Reading) : P (s.take name r).index.toArchive :=
  (hP.weaken fun _ => Task.Logged.linked).take_of_begun_logged h name r

/-- A reading keeps an invariant of the archive that is written. -/
theorem take {s : Session} (h : P s.index.toArchive) (name : String) (r : Reading) :
    P (s.take name r).index.toArchive :=
  hP.take_of_begun (hP.beginPass s.index h) name r

/-- Readings keep an invariant of the archive that is written. -/
theorem readSources {s : Session} (h : P s.index.toArchive)
    (sources : List (LogSource × Cancellation)) : P (s.readSources sources).index.toArchive :=
  (hP.weaken fun _ => Task.Logged.linked).readSources_logged h sources

end

section

variable {T : Task → Prop} (hP : ArchiveInvariant T P)
include hP

/-- An invariant holds of the archive at the end of a session if it holds of the one that is
written. -/
theorem finish {s : Session} (h : P s.index.toArchive) : P s.finish.1 :=
  hP.congr s.index.sameFiled_freeze h

/-- An invariant of an archive holds where a session goes on with it. -/
theorem resume {config : Config} {a : Archive} (h : P a) {s : Session}
    (hs : Session.resume config a = .ok s) : P s.index.toArchive := by
  rw [Session.index_of_withIndex hs]
  exact hP.congr (a.sameFiled_thaw config.pendingCapacity) h

end

end ArchiveInvariant

end CompileLog

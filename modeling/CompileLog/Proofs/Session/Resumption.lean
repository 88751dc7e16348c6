import CompileLog.Proofs.History.Rest
import CompileLog.Proofs.Session.Lookup

/-!
# Stopping and resuming

A session may stop: it finishes, its archive is stored, and another session loads it and reads on.
That is as if one session had read everything, except for what a rest changes in its index: readings
are counted on from the last one that filed a task, listings that waited stay without their task, and
installed code that waited is lost.
-/

namespace CompileLog

open Collect Markup

/-- A session begins: it starts, or goes on with an archive that sessions and snapshots give. -/
inductive Session.Begins (config : Config) (s : Session) : Prop where
  /-- It starts. -/
  | start (hs : Session.start config = .ok s)
  /-- It goes on. -/
  | resume {a : Archive} (ha : a.Reachable) (hs : Session.resume config a = .ok s)

/-- Two sessions read alike: they go by the same configuration and vocabulary, and write into
indexes that are alike. -/
structure Session.Alike (s s' : Session) : Prop where
  config_eq : s'.config = s.config
  vocabulary_eq : s'.vocabulary = s.vocabulary
  index : s.index.Alike s'.index

namespace Session

/-! ### Reading on -/

/-- A reading keeps two sessions alike. -/
theorem Alike.take {s s' : Session} (h : s.Alike s') (name : String) (r : Reading) :
    (s.take name r).Alike (s'.take name r) where
  config_eq := h.config_eq
  vocabulary_eq := h.vocabulary_eq
  index := by
    have hfiled := ((h.index.beginPass.foldl_record (s.yields r)).recordHeader
      (Collector.collect s.config.keepListings (r.fragments.map (decode s.vocabulary))).1.header)
    unfold Session.take
    rw [h.config_eq, h.vocabulary_eq]
    exact hfiled.toAlike

/-- Readings keep two sessions alike. -/
theorem Alike.readSources {s s' : Session} (h : s.Alike s')
    (sources : List (LogSource × Cancellation)) :
    (s.readSources sources).Alike (s'.readSources sources) :=
  readSources_rel (fun _ _ name r h => h.take name r) h sources

/-- Sessions that read alike finish with the same archive. -/
theorem Alike.same_finish {s s' : Session} (h : s.Alike s') : s'.finish.1.Same s.finish.1 :=
  h.index.same_freeze

/-! ### What a session keeps in order -/

/-- A session goes by its configuration, and its table of what waits is in order. -/
structure Orderly (config : Config) (s : Session) : Prop where
  config_eq : s.config = config
  vocabulary_eq : config.vocabulary = .ok s.vocabulary
  tidy : s.index.Tidy config.pendingCapacity

/-- A session that begins with a table in order is orderly. -/
theorem orderly_withIndex {config : Config} {x : Index} {s : Session}
    (hs : withIndex config x = .ok s) (h : x.Tidy config.pendingCapacity) : s.Orderly config := by
  unfold withIndex at hs
  cases hvocabulary : config.vocabulary with
  | error e =>
    rw [hvocabulary] at hs
    cases hs
  | ok vocabulary =>
    rw [hvocabulary] at hs
    obtain rfl := Except.ok.inj hs
    exact ⟨rfl, hvocabulary, h⟩

/-- Every session that begins is orderly. -/
theorem Begins.orderly {config : Config} {s : Session} (h : s.Begins config) :
    s.Orderly config := by
  cases h with
  | start hs => exact orderly_withIndex hs (Index.tidy_empty _)
  | resume _ hs => exact orderly_withIndex hs (Archive.tidy_thaw _ _)

/-- A reading keeps a session orderly. -/
theorem Orderly.take {config : Config} {s : Session} (h : s.Orderly config) (name : String)
    (r : Reading) : (s.take name r).Orderly config := by
  refine ⟨h.config_eq, h.vocabulary_eq, ?_⟩
  have hbegun : s.index.beginPass.Tidy config.pendingCapacity := h.tidy.congr rfl rfl rfl rfl
  have hrecorded := List.foldlRecOn (motive := fun x : Index => x.Tidy config.pendingCapacity)
    (s.yields r) Index.record hbegun fun x hx item _ => hx.record item
  exact hrecorded.recordHeader _

/-- Readings keep a session orderly. -/
theorem Orderly.readSources {config : Config} {s : Session} (h : s.Orderly config)
    (sources : List (LogSource × Cancellation)) : (s.readSources sources).Orderly config :=
  readSources_keeps (P := Orderly config) (fun _ name r h => h.take name r) h sources

/-- What a session that begins has read is what sessions and snapshots give. -/
theorem Begins.reachable {config : Config} {s : Session} (h : s.Begins config)
    (sources : List (LogSource × Cancellation)) : (s.readSources sources).finish.1.Reachable := by
  cases h with
  | start hs => exact .read hs sources
  | resume ha hs => exact .readOn ha hs sources

/-- A session goes on where a rest has left its index. -/
def settled (s : Session) : Session := { s with index := s.index.settled }

/-- The session that goes on with the snapshot of what an orderly session finished reads alike one
whose index the rest has left. -/
theorem Orderly.alike_resume {config : Config} {s : Session} (h : s.Orderly config)
    (hreachable : s.finish.1.Reachable) :
    ∃ resumed, Session.resume config s.finish.1.reloaded = .ok resumed ∧
      s.settled.Alike resumed := by
  obtain ⟨hsound, howned, hnumbered⟩ := hreachable.numbered
  have hsame : s.index.freeze.reloaded.Same s.index.freeze := hsound.same_toArchive
  have hfiled := s.index.sameFiled_freeze
  have howned' : s.index.Owned := howned.congr ⟨hfiled.1.symm, hfiled.2.symm, hfiled.3.symm⟩
  have hnumbered' : s.index.Numbered := Archive.Numbered.archiveInvariant.congr
    ⟨hfiled.1.symm, hfiled.2.symm, hfiled.3.symm⟩ hnumbered
  refine ⟨⟨config, s.vocabulary, s.index.freeze.reloaded.thaw config.pendingCapacity, []⟩, ?_,
    h.config_eq.symm, rfl, h.tidy.alike_thaw_reloaded howned' hnumbered' hsame⟩
  unfold Session.resume withIndex
  rw [h.vocabulary_eq]
  rfl

end Session

/-- Stopping and resuming. A session reads some sources and finishes; the bytes of its snapshot are
read, a session goes on with the archive in it, and reads further sources. It finishes with the same
archive as one session that reads all sources, and whose index a rest changes in between: readings
are counted on from the last one that filed a task, listings that wait become orphans, and installed
code that waits is lost. Where the last reading filed a task and only events wait, the rest changes
nothing, so it is the same archive as without the stop. Nothing may be counted beyond the stored
form. -/
theorem stopping_and_resuming {config : Config} {s : Session} (h : s.Begins config)
    (before after : List (LogSource × Cancellation))
    (hcount : (s.readSources before).finish.1.Countable) :
    let stopped := s.readSources before
    ∃ stored resumed,
      Snapshot.read (Snapshot.ofArchive stopped.finish.1).bytes = .ok stored ∧
      Session.resume config stored.toArchive = .ok resumed ∧
      (resumed.readSources after).finish.1.Same (stopped.settled.readSources after).finish.1 ∧
      (stopped.index.pass = stopped.index.lastFiling →
        (∀ p ∈ stopped.index.pending.toList, p.2.isDeopt = true) →
        (resumed.readSources after).finish.1.Same (s.readSources (before ++ after)).finish.1) := by
  intro stopped
  have horderly := h.orderly.readSources before
  have hreachable := h.reachable before
  obtain ⟨resumed, hresumed, halike⟩ := horderly.alike_resume hreachable
  have hsame := (halike.readSources after).same_finish
  refine ⟨_, resumed, Snapshot.read_bytes rfl (hreachable.sound.fits hcount), hresumed, hsame, ?_⟩
  intro hpass hevents
  have hsettled : stopped.settled = stopped := by
    unfold Session.settled
    rw [horderly.tidy.settled_eq hpass hevents]
  have hall : s.readSources (before ++ after) = stopped.readSources after := by
    unfold Session.readSources
    rw [List.foldl_append]
    rfl
  rw [hall, ← hsettled]
  exact hsame

/-- A first log ends with an event that waits for a task. The session stops there and goes on with a
second log that gives this task, and finishes as if it had not stopped. -/
theorem stopping_and_resuming_eventWaits :
    let first := Text.Utf8.encode
      ("<task compile_id='7' method='A a ()V'><task_done/></task>" ++
        "<make_not_entrant compile_id='8'/>")
    let second := Text.Utf8.encode
      ("<task compile_id='8' method='A a ()V'><task_done/></task>" ++
        "<make_not_entrant compile_id='7'/>")
    let s := Session.fresh .usual .builtin
    let before : List (LogSource × Cancellation) := [(.memory "first" first, .never)]
    let after : List (LogSource × Cancellation) := [(.memory "second" second, .never)]
    let stopped := s.readSources before
    s.Begins .usual ∧ stopped.finish.1.Countable ∧
      stopped.index.pass = stopped.index.lastFiling ∧ stopped.index.waiting.length = 1 ∧
      (∀ p ∈ stopped.index.pending.toList, p.2.isDeopt = true) ∧
      ∃ stored resumed,
        Snapshot.read (Snapshot.ofArchive stopped.finish.1).bytes = .ok stored ∧
        Session.resume .usual stored.toArchive = .ok resumed ∧
        (resumed.readSources after).finish.1.Same (s.readSources (before ++ after)).finish.1 := by
  intro first second s before after stopped
  have hbegins : s.Begins .usual := .start rfl
  have hstopped : stopped.finish.1.Countable ∧
      stopped.index.pass = stopped.index.lastFiling ∧ stopped.index.waiting.length = 1 ∧
      ∀ p ∈ stopped.index.pending.toList, p.2.isDeopt = true := by
    decide +kernel
  obtain ⟨hcount, hpass, hwaits, hevents⟩ := hstopped
  obtain ⟨stored, resumed, hread, hresume, _, hsame⟩ :=
    stopping_and_resuming hbegins before after hcount
  exact ⟨hbegins, hcount, hpass, hwaits, hevents, stored, resumed, hread, hresume,
    hsame hpass hevents⟩

/-- A stop can be told afterwards: where the first log has no task, the task of the second one bears
another number of its reading; and where a listing waits for a task, it stays without it. -/
theorem stop_told_afterwards :
    let task1 := "<task compile_id='1' method='A a ()V'><task_done/></task>"
    let task7 := "<task compile_id='7' method='A a ()V'><task_done/></task>"
    let listing7 := "<print_nmethod compile_id='7'>\n" ++
      "Compiled method (c1)     200    7       1       A::a (17 bytes)\n" ++
      "[Entry Point]\n  0x0000000000001000: 448b 5608\n</print_nmethod>"
    ∃ s, Session.start .usual = .ok s ∧ ∀ logs ∈ [("", task1), (task1 ++ listing7, task7)],
      let stopped := s.readSources [(.memory "first" (Text.Utf8.encode logs.1), .never)]
      let after := [(LogSource.memory "second" (Text.Utf8.encode logs.2), Cancellation.never)]
      ∃ stored resumed,
        Snapshot.read (Snapshot.ofArchive stopped.finish.1).bytes = .ok stored ∧
        Session.resume .usual stored.toArchive = .ok resumed ∧
        ¬ (resumed.readSources after).finish.1.Same (stopped.readSources after).finish.1 := by
  intro task1 task7 listing7
  have hstart : Session.start .usual = .ok (Session.fresh .usual .builtin) := rfl
  have htold : ∀ logs ∈ [("", task1), (task1 ++ listing7, task7)],
      let stopped := (Session.fresh .usual .builtin).readSources
        [(.memory "first" (Text.Utf8.encode logs.1), .never)]
      let after := [(LogSource.memory "second" (Text.Utf8.encode logs.2), Cancellation.never)]
      let resumed : Session :=
        ⟨.usual, .builtin, stopped.finish.1.reloaded.thaw Index.defaultCapacity, []⟩
      stopped.finish.1.Countable ∧
        ¬ (resumed.readSources after).finish.1.Same (stopped.readSources after).finish.1 := by
    decide +kernel
  refine ⟨_, hstart, fun logs hlogs => ?_⟩
  obtain ⟨hcount, hother⟩ := htold logs hlogs
  intro stopped after
  have hreachable : stopped.finish.1.Reachable := .read hstart _
  exact ⟨_, _, Snapshot.read_bytes rfl (hreachable.sound.fits hcount), rfl, hother⟩

end CompileLog

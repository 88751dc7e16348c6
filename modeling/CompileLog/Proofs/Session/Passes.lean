import CompileLog.Proofs.Collect.Accounts
import CompileLog.Proofs.Collect.Tally
import CompileLog.Proofs.History.States
import CompileLog.Session

/-!
# From the log to the index

A session files every task that a log hands over, and reports how many there were. So between what
a log says and what the index holds no compilation is lost and none is added: the log gives one task
for each cause, the report counts them, and the index grows by as many.
-/

namespace CompileLog

open Collect Markup

/-! ### Sources -/

/-- Something that a session may read. -/
structure LogSource where
  /-- Its name. -/
  name : String
  /-- What a reading of it delivers, or why it cannot be opened. -/
  opened : Cancellation → Except String Reading

/-- A log in a file. -/
def LogSource.file (files : Files) (path : String) (follow : Bool) : LogSource where
  name := Session.sourceName path follow
  opened cancel :=
    match files path with
    | .missing => .error FileEntry.missingReason
    | .unreadable reason => .error reason
    | .directory => .ok (readWithheld cancel FileEntry.directoryReason)
    | .file log => .ok (read cancel log)

/-- A log in memory. -/
def LogSource.memory (name : String) (log : List UInt8) : LogSource where
  name
  opened cancel := .ok (read cancel log)

namespace Session

/-- Reads a source to its end, if it can be opened. -/
def readSource (s : Session) (source : LogSource) (cancel : Cancellation) :
    Except SourceError Session :=
  match source.opened cancel with
  | .error reason => .error ⟨source.name, reason⟩
  | .ok r => .ok (s.take source.name r)

/-- Reads sources one after the other. One that cannot be opened leaves the session as it is. -/
def readSources (s : Session) (sources : List (LogSource × Cancellation)) : Session :=
  sources.foldl
    (fun s source =>
      match s.readSource source.1 source.2 with
      | .ok s' => s'
      | .error _ => s) s

/-- What each reading keeps of two sessions holds after all of them. By induction on the sources. -/
theorem readSources_rel {R : Session → Session → Prop}
    (hR : ∀ s s' name r, R s s' → R (s.take name r) (s'.take name r)) {s s' : Session} (h : R s s')
    (sources : List (LogSource × Cancellation)) :
    R (s.readSources sources) (s'.readSources sources) := by
  induction sources generalizing s s' with
  | nil => exact h
  | cons source rest ih =>
    unfold readSources readSource
    rw [List.foldl_cons, List.foldl_cons]
    refine ih ?_
    cases source.1.opened source.2 with
    | error reason => exact h
    | ok r => exact hR s s' source.1.name r h

/-- What each reading keeps of a session holds after all of them. -/
theorem readSources_keeps {P : Session → Prop} (hP : ∀ s name r, P s → P (s.take name r))
    {s : Session} (h : P s) (sources : List (LogSource × Cancellation)) :
    P (s.readSources sources) :=
  @readSources_rel (fun s _ => P s) (fun s _ => hP s) s s h sources

/-- A file is a source. -/
theorem readFrom_eq (s : Session) (files : Files) (path : String) (follow : Bool)
    (cancel : Cancellation) :
    s.readFrom files path follow cancel = s.readSource (.file files path follow) cancel := by
  unfold readFrom readSource LogSource.file
  cases files path <;> rfl

/-- A log in memory is a source. -/
theorem readLog_eq (s : Session) (name : String) (log : List UInt8) (cancel : Cancellation) :
    .ok (s.readLog name cancel log) = s.readSource (.memory name log) cancel := rfl

/-- A session that begins with an empty index. -/
def fresh (config : Config) (vocabulary : Vocabulary) : Session :=
  ⟨config, vocabulary, .empty config.pendingCapacity, []⟩

/-- A session starts fresh, with the vocabulary of its configuration. -/
theorem start_eq (config : Config) : start config = config.vocabulary.map (fresh config) := rfl

end Session

/-! ### Filing a reading -/

/-- Number of the tasks that a reading handed over. -/
def PassReport.handedOver (p : PassReport) : Nat := p.counts.closed + p.counts.abandoned

/-- The number of tasks is the number of their states. -/
theorem Archive.taskCount_eq (a : Archive) : a.taskCount = a.states.length :=
  (List.length_map Task.state).symm

/-- The number of abandoned tasks, by their states. -/
theorem countP_isAbandoned (ts : List Task) :
    ts.countP Task.isAbandoned = (ts.map Task.state).count .abandoned := by
  rw [List.count, List.countP_map]
  congr 1

namespace Session

/-- Filing a reading brings the states of the tasks that it handed over. -/
theorem states_file (x : Index) (c : Collector) (items : List Item) :
    (file x c items).states.Perm ((tasksOf items).map Task.state ++ x.states) := by
  have hfiled := Index.states_record_all items x.beginPass
  have hheader := Index.sameFiled_recordHeader (items.foldl Index.record x.beginPass) c.header
  unfold file
  rw [hheader.states_eq]
  exact hfiled

/-- Where the counts are the numbers of the tasks handed over, filing these raises the number of
tasks, and that of the abandoned ones, as counted. -/
theorem file_counts (x : Index) {c : Collector} {items : List Item}
    (hclosed : c.counts.closed = (tasksOf items).countP fun t => !t.isAbandoned)
    (habandoned : c.counts.abandoned = (tasksOf items).countP Task.isAbandoned) :
    (file x c items).taskCount = x.taskCount + (c.counts.closed + c.counts.abandoned) ∧
      (file x c items).tasks.countP Task.isAbandoned =
        x.tasks.countP Task.isAbandoned + c.counts.abandoned := by
  have hfiled := states_file x c items
  have hlength := hfiled.length_eq
  have hcount := List.perm_iff_count.mp hfiled .abandoned
  have hparts : (tasksOf items).length = (tasksOf items).countP Task.isAbandoned +
      (tasksOf items).countP fun t => !t.isAbandoned := by
    rw [List.length_eq_countP_add_countP Task.isAbandoned]
    simp only [Bool.not_eq_true, Bool.decide_eq_false]
  rw [List.length_append, List.length_map] at hlength
  rw [List.count_append, ← countP_isAbandoned] at hcount
  simp only [Archive.taskCount_eq, countP_isAbandoned]
  unfold Archive.states at hlength hcount ⊢
  constructor
  · omega
  · omega

/-- A reading adds one report, and as many tasks as that report counts, of which it counts the
abandoned ones. -/
theorem take_counts (s : Session) (name : String) (r : Reading) :
    ∃ pass, (s.take name r).report = s.report ++ [pass] ∧
      (s.take name r).index.taskCount = s.index.taskCount + pass.handedOver ∧
      (s.take name r).index.tasks.countP Task.isAbandoned =
        s.index.tasks.countP Task.isAbandoned + pass.counts.abandoned := by
  obtain ⟨hclosed, habandoned⟩ := Collector.tally_collect s.config.keepListings
    (r.fragments.map (decode s.vocabulary))
  exact ⟨_, rfl, file_counts s.index hclosed habandoned⟩

/-- Reading a source that can be opened is a reading like any other. -/
theorem readSource_counts {s s' : Session} {source : LogSource} {cancel : Cancellation}
    (h : s.readSource source cancel = .ok s') :
    ∃ pass, s'.report = s.report ++ [pass] ∧
      s'.index.taskCount = s.index.taskCount + pass.handedOver ∧
      s'.index.tasks.countP Task.isAbandoned =
        s.index.tasks.countP Task.isAbandoned + pass.counts.abandoned := by
  unfold readSource at h
  cases hopened : source.opened cancel with
  | error reason =>
    rw [hopened] at h
    cases h
  | ok r =>
    rw [hopened] at h
    obtain rfl := Except.ok.inj h
    exact s.take_counts source.name r

/-- In a session that began with an empty index, the abandoned tasks are those that its reports
count. -/
theorem abandoned_readSources (s : Session) (sources : List (LogSource × Cancellation))
    (h : s.index.tasks.countP Task.isAbandoned = s.report.totals.abandoned) :
    (s.readSources sources).index.tasks.countP Task.isAbandoned =
      (s.readSources sources).report.totals.abandoned := by
  refine readSources_keeps (P := fun s =>
    s.index.tasks.countP Task.isAbandoned = s.report.totals.abandoned) (fun s name r h => ?_) h
    sources
  obtain ⟨pass, hreport, _, hcount⟩ := s.take_counts name r
  rw [hcount, hreport, h]
  unfold SessionReport.totals
  rw [List.foldl_append]
  rfl

end Session

/-- No compilation is lost or invented between a log and the index. Whatever events a log gives,
the tasks handed over under each number are those that its mentions cause, one for one and in
order: a task for each start, which takes over what was said under its number before; an abandoned
task for what was said under a number that never begins; a finished task for a bridge to native code
that comes alone; and no other. No task stays open. Whatever a session has read, a further source
that can be opened adds one report and raises the number of tasks by what that report counts. And in
a session that started with an empty index, the number of abandoned tasks is the total of its
reports. -/
theorem compilations_accounted_for :
    (∀ retain events,
      (∀ id, List.Forall₂ (Cause.Yields id) (causes (mentionsOf id events))
        (tasksWith id (Collector.collect retain events).2)) ∧
      (Collector.collect retain events).1.openTasks = 0) ∧
    (∀ (s : Session) sources source cancel,
      match (s.readSources sources).readSource source cancel with
      | .error _ => True
      | .ok after => ∃ pass, after.report = (s.readSources sources).report ++ [pass] ∧
        after.index.taskCount = (s.readSources sources).index.taskCount +
          (pass.counts.closed + pass.counts.abandoned)) ∧
    ∀ config vocabulary sources,
      let s := (Session.fresh config vocabulary).readSources sources
      (s.index.tasks.filter fun t => t.state = .abandoned).length =
        s.report.totals.abandoned := by
  refine ⟨fun retain events => ?_, fun s sources source cancel => ?_,
    fun config vocabulary sources => ?_⟩
  · exact ⟨fun id => (Collector.yields_collect retain events id).1,
      (Collector.yields_collect retain events 0).2⟩
  · split
    · trivial
    · next after hread =>
      obtain ⟨pass, hreport, hcount, _⟩ := Session.readSource_counts hread
      exact ⟨pass, hreport, hcount⟩
  · have hcount := (Session.fresh config vocabulary).abandoned_readSources sources rfl
    rw [List.countP_eq_length_filter] at hcount
    exact hcount

end CompileLog

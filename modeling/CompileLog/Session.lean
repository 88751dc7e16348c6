import CompileLog.Collect.Collector
import CompileLog.Config
import CompileLog.Event.Decode
import CompileLog.History.Index
import CompileLog.Markup.Reading

/-!
# Sessions

A session reads logs one after the other into one index. Each reading takes a log to its end,
files what it yields, and leaves a report; a log that was cut short is read as far as it goes.
-/

namespace CompileLog

open Collect Markup

/-- How one reading went. -/
structure PassReport where
  /-- What was read. -/
  source : String
  /-- Number of fragments. -/
  fragments : Nat
  /-- What stopped the log before its natural end. -/
  truncation : Option Truncation
  /-- Whether the reading was cancelled. -/
  cancelled : Bool
  /-- What was met. -/
  counts : Counts
  deriving DecidableEq

/-- How all readings of a session went. -/
abbrev SessionReport := List PassReport

namespace SessionReport

/-- Whether a log was cut short. -/
def truncated (r : SessionReport) : Bool := r.any fun p => p.truncation.isSome

/-- Whether a reading was cancelled. -/
def cancelled (r : SessionReport) : Bool := r.any PassReport.cancelled

/-- What was met in all readings together. -/
def totals (r : SessionReport) : Counts := r.foldl (fun n p => n.add p.counts) .zero

end SessionReport

/-- A log that cannot be opened, for the reason that the system gives. -/
structure SourceError where
  /-- What was to be read. -/
  source : String
  reason : String
  deriving DecidableEq

/-- What is said of a log that cannot be opened. -/
def SourceError.message (e : SourceError) : String :=
  "Failed to open log source " ++ e.source ++ ": " ++ e.reason

/-- Readings into one index. -/
structure Session where
  config : Config
  vocabulary : Vocabulary
  index : Index
  report : SessionReport

namespace Session

/-- A session that goes on with an index. -/
def withIndex (config : Config) (index : Index) : Except ConfigError Session :=
  config.vocabulary.map fun vocabulary => ⟨config, vocabulary, index, []⟩

/-- A session that has read nothing. -/
def start (config : Config) : Except ConfigError Session :=
  withIndex config (.empty config.pendingCapacity)

/-- A session that goes on writing into an archive. -/
def resume (config : Config) (archive : Archive) : Except ConfigError Session :=
  withIndex config (archive.thaw config.pendingCapacity)

/-- Files what one reading yields. -/
def file (x : Index) (collector : Collector) (items : List Item) : Index :=
  (items.foldl Index.record x.beginPass).recordHeader collector.header

/-- Takes in what a reading delivered. -/
def take (s : Session) (source : String) (r : Reading) : Session :=
  let events := r.fragments.map (decode s.vocabulary)
  let (collector, items) := Collector.collect s.config.keepListings events
  { s with
    index := file s.index collector items
    report := s.report ++
      [⟨source, r.fragments.length, r.truncation?, r.isCancelled, collector.counts⟩] }

/-- Reads the bytes of a log. -/
def readLog (s : Session) (source : String) (cancel : Cancellation) (log : List UInt8) :
    Session :=
  s.take source (read cancel log)

/-- The name of a source. A file that is followed is named as such. -/
def sourceName (path : String) (follow : Bool) : String :=
  if follow then path ++ " (follow)" else path

/-- Reads the log in a file. A directory can be opened but not read. -/
def readFrom (s : Session) (files : Files) (path : String) (follow : Bool)
    (cancel : Cancellation) : Except SourceError Session :=
  let source := sourceName path follow
  match files path with
  | .missing => .error ⟨source, FileEntry.missingReason⟩
  | .unreadable reason => .error ⟨source, reason⟩
  | .directory => .ok (s.take source (readWithheld cancel FileEntry.directoryReason))
  | .file log => .ok (s.readLog source cancel log)

/-- Ends writing. -/
def finish (s : Session) : Archive × SessionReport := (s.index.freeze, s.report)

end Session

end CompileLog

import CompileLog.Analysis.Summary
import CompileLog.Console.Page
import CompileLog.Json.Printer
import CompileLog.Session

/-!
# Numbers of a log

The pages that show a log, or a snapshot of one, in numbers: what was compiled, and what went
wrong on the way.
-/

namespace CompileLog.Console

/-- What is known of a virtual machine. -/
def headerPage (h : LogHeader) : Page :=
  (match h.vmName with
    | some name => field "VM" (name ++ " " ++ h.vmRelease.getD "?")
    | none => []) ++
    if h.compilerThreads.isEmpty then []
    else field "Compiler threads" (", ".intercalate h.compilerThreads)

/-- How long tasks waited. -/
def delayPage (d : Delay) : Page :=
  field "Queue delay" ("min " ++ number d.least ++ " us, mean " ++ number d.mean ++
    " us, max " ++ number d.greatest ++ " us (" ++ number d.samples ++ " tasks)")

/-- The free space in the code cache, if the last sample tells it. -/
def codeCachePage (samples : List CodeCacheSample) : Page :=
  match samples.getLast?.bind CodeCacheSample.freeCodeCache with
  | some free => field "Free code cache" (number free.toNat ++ " bytes")
  | none => []

/-- What was compiled. -/
def workPage (s : Summary) : Page :=
  count "Methods" s.methods ++ count "Tasks" s.tasks ++
    s.byLevel.entries.flatMap (fun e => count ("  tier " ++ number e.1.toNat) e.2) ++
    s.byCompiler.entries.flatMap (fun e => count ("  " ++ e.1) e.2) ++
    count "OSR" s.osr ++ count "Native wrappers" s.nativeWrappers ++
    count "Native bytes" s.nativeBytes ++ count "Inlined bytes" s.inlinedBytes ++
    count "Eliminated allocations" s.removedAllocations ++
    count "Elided locks" s.removedLocks ++ count "Hot throws" s.hotThrows ++
    (match s.queueDelay with
      | some d => delayPage d
      | none => [])

/-- What went wrong. -/
def anomaliesPage (s : Summary) : Page :=
  heading "Anomalies" ++ anomaly "Failed tasks" s.failed ++
    anomaly "Abandoned tasks" s.abandoned ++ anomaly "Invalidated tasks" s.invalidated ++
    anomaly "Flagged tasks" s.flaggedTasks ++ anomaly "Flagged histories" s.flaggedHistories ++
    anomaly "Orphan deopts" s.orphanDeopts ++ anomaly "Dropped deopts" s.dropped ++
    anomaly "Orphan assembly" s.orphanListings

/-- An archive in numbers, under the name of the file that it comes from. -/
def archivePage (source : String) (a : Archive) : Page :=
  let s := Summary.of a
  heading source ++ a.headers.flatMap headerPage ++ workPage s ++ codeCachePage a.codeCache ++
    [.lineEnd] ++ anomaliesPage s

/-- What was met while a log was read. -/
def reportPage (r : SessionReport) : Page :=
  let n := r.totals
  anomaly "Implicit tasks" n.implicit ++ anomaly "Duplicate starts" n.duplicateStarts ++
    anomaly "Stray events" n.stray ++ anomaly "Unknown elements" n.unknown ++
    anomaly "Unparsed values" n.unreadAttributes ++
    if r.truncated then
      [.quiet "  ", .suspect "log ended before all elements closed", .lineEnd]
    else []

/-- A log in numbers. -/
def summaryPage (log : String) (a : Archive) (r : SessionReport) : Page :=
  archivePage log a ++ reportPage r

/-- The numbers of an archive as JSON. -/
def summaryJson (a : Archive) : Page :=
  [.bare (String.ofList (Summary.of a).write.pretty), .lineEnd]

end CompileLog.Console

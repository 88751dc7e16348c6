import CompileLog.Analysis.Resolve
import CompileLog.Console.Failure
import CompileLog.Console.Inlining
import CompileLog.Console.Listing
import CompileLog.Console.Overview
import CompileLog.Console.Ranked
import CompileLog.Console.Timeline
import CompileLog.Console.Usage

/-!
# The program

What the program prints and writes, as a function of its arguments, its environment and the
files that it finds. A log that ends too early is worth a warning and is shown as far as it
goes; every failure ends the command before anything is printed.
-/

namespace CompileLog.Console

/-- What the environment says about the terminal. -/
structure Environment where
  /-- Whether no colors are wanted at all. -/
  noColor : Bool
  /-- The kind of the terminal. -/
  terminal : Option String
  deriving DecidableEq

/-- Whether pages are colored. -/
def Environment.colored (e : Environment) : ColorChoice → Bool
  | .always => !e.noColor
  | .never => false
  | .auto => !e.noColor && e.terminal.any fun kind => kind ≠ "dumb"

/-- What a command has done once it is through. -/
structure Effect where
  /-- What is printed. -/
  page : Page
  /-- The file that is written, and its text. -/
  written : Option (String × String)
  deriving DecidableEq

/-- What a command comes to. -/
structure Performance where
  /-- What is worth a warning. -/
  warnings : List String
  result : Except Failure Effect

namespace Performance

/-- A command that only prints. -/
def print (page : Page) : Except Failure Effect := .ok ⟨page, none⟩

/-- The warning about a reading that ended too early. -/
def warning? (p : PassReport) : Option String :=
  p.truncation.map fun t => p.source ++ " ended early: " ++ truncation t

/-- Reads a log under the options. -/
def readArchive (files : Files) (o : Options) (log : String) :
    Except Failure (Archive × SessionReport) := do
  let config ← (Config.load files o.config).mapError (.ofConfig o.config)
  let session ← (Session.start config).mapError (.ofConfig o.config)
  let session ← (session.readFrom files log o.follow .never).mapError (.ofSource log)
  return session.finish

/-- Answers from a log. -/
def withLog (files : Files) (o : Options) (log : String)
    (answer : Archive → SessionReport → Except Failure Effect) : Performance :=
  match readArchive files o log with
  | .error f => ⟨[], .error f⟩
  | .ok (a, r) => ⟨r.filterMap warning?, answer a r⟩

/-- Prints the history of the method that a text names. -/
def showHistory (a : Archive) (query : String) : Except Failure Effect :=
  match a.resolve query with
  | .error e => .error ⟨e.message, []⟩
  | .ok method =>
    match a.historyOf? method with
    | some h => print (historyPage method h)
    | none => .error ⟨"No history for " ++ method.display, []⟩

/-- Prints what is found out about a task. -/
def showTask (a : Archive) (attempt : String) (id : UInt64) (page : Task → Page) :
    Except Failure Effect :=
  match a.findTask id with
  | .ok t => print (page t)
  | .error e => .error (.ofLookup attempt id e)

/-- Prints the correlation of a task. -/
def showCorrelation (a : Archive) (id : UInt64) : Except Failure Effect := do
  let c ← (a.correlation .bare id).mapError (.ofLookup "Cannot correlate" id)
  let t ← (a.findTask id).mapError fun e => (⟨e.message, []⟩ : Failure)
  print (correlationPage t c)

/-- What is said of a snapshot once it is written. -/
def savedPage (a : Archive) (output : String) : Page :=
  [.live "Saved", .plain (" " ++ number a.methodCount ++ " methods, " ++ number a.taskCount ++
    " tasks to " ++ output), .lineEnd]

/-- Writes a snapshot. -/
def saveArchive (files : Files) (a : Archive) (output : String) : Except Failure Effect :=
  match files.writeFailure? output with
  | some reason => .error (.ofSaving output reason)
  | none =>
    .ok ⟨savedPage a output, some (output, String.ofList (Snapshot.ofArchive a).print)⟩

end Performance

open Performance in
/-- Carries out a command. -/
def Command.perform (files : Files) (o : Options) : Command → Performance
  | .summary log json => withLog files o log fun a r =>
    print (if json then summaryJson a else summaryPage log a r)
  | .methods log filter => withLog files o log fun a _ => print (methodsPage a filter)
  | .history log method => withLog files o log fun a _ => showHistory a method
  | .tree log id => withLog files o log fun a _ =>
    showTask a "Cannot show the inline tree of" id treePage
  | .suggest log (some id) => withLog files o log fun a _ =>
    showTask a "Cannot suggest for" id suggestionsPage
  | .suggest log none => withLog files o log fun a _ => print (groupsPage a)
  | .correlate log id => withLog files o log fun a _ => showCorrelation a id
  | .top log ranking limit => withLog files o log fun a _ =>
    print (rankingsPage a limit ((ranking.map fun r => [r]).getD Ranking.all))
  | .report log removal => withLog files o log fun a _ => print (removalPage a removal)
  | .save log output => withLog files o log fun a _ => saveArchive files a output
  | .load snapshot =>
    ⟨[], match Snapshot.load files snapshot with
      | .ok a => print (archivePage snapshot a)
      | .error e => .error (.ofSnapshot snapshot e)⟩

/-- The log that a command reads. -/
def Command.log? : Command → Option String
  | .summary log _ | .methods log _ | .history log _ | .tree log _ | .suggest log _
  | .correlate log _ | .top log _ _ | .report log _ | .save log _ => some log
  | .load _ => none

/-- The names that a command looks for. -/
def Command.names (o : Options) : Command → List String
  | .load snapshot => [snapshot]
  | .save log output => [o.config.getD Config.fileName, log, output, parentOf output]
  | c => o.config.getD Config.fileName :: c.log?.toList

/-- What the program leaves behind. -/
structure Response where
  exitCode : UInt32
  /-- What it prints. -/
  output : String
  /-- What it prints for the user to notice. -/
  errors : String
  /-- The file that it writes, and its text. -/
  written : Option (String × String)
  deriving DecidableEq

/-- The text of a warning. -/
def warningText (colored : Bool) (warning : String) : String :=
  (Piece.suspect "warning").render colored ++ ": " ++ warning ++ "\n"

/-- What the program leaves behind after a command. -/
def Performance.respond (colored : Bool) (p : Performance) : Response :=
  let warnings := String.join (p.warnings.map (warningText colored))
  match p.result with
  | .ok effect => ⟨0, effect.page.render colored, warnings, effect.written⟩
  | .error f => ⟨1, "", warnings ++ f.text, none⟩

/-- What the program leaves behind where no command comes of the arguments. -/
def Refusal.respond : Refusal → Response
  | .help => ⟨0, usageText, "", none⟩
  | .version => ⟨0, versionText, "", none⟩
  | .misuse => ⟨2, "", misuseText, none⟩

/-- Runs the program. -/
def run (environment : Environment) (files : Files) (arguments : List String) : Response :=
  match readArguments arguments with
  | .error refusal => refusal.respond
  | .ok (options, command) =>
    (command.perform files options).respond (environment.colored options.color)

end CompileLog.Console

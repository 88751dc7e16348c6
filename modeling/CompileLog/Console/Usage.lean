import CompileLog.Console.Arguments

/-!
# Usage

What is said to someone who asks for help, for the version, or gives arguments that make no
command.
-/

namespace CompileLog.Console

/-- The name of the program. -/
def programName : String := "jitlog"

/-- The version of the program. -/
def versionText : String := programName ++ " 0.1.0\n"

/-- What a command is for. -/
def Verb.purpose : Verb → String
  | .summary => "Statistics and anomalies of a log"
  | .methods => "Compiled methods with their task counts"
  | .history => "Compilation history of one method"
  | .tree => "Inline tree of one compile task"
  | .suggest => "Inlining suggestions for one task, or grouped over the whole log"
  | .correlate => "Map emitted instructions back to bytecode"
  | .top => "Ranked lists: largest methods, slowest compiles, common failure reasons"
  | .report => "Allocations or locks removed by the compiler"
  | .save => "Parse a log and save the result as a snapshot"
  | .load => "Summarize a saved snapshot"

/-- How the program is called. -/
def callText : String := "Usage: " ++ programName ++ " [OPTIONS] <COMMAND>\n"

/-- The line of a command. -/
def Verb.usageLine (v : Verb) : String :=
  "  " ++ v.word ++ String.ofList (List.replicate (11 - v.word.length) ' ') ++ v.purpose ++ "\n"

/-- What can be asked of the program. -/
def usageText : String :=
  "Inspect JIT compilation logs\n\n" ++ callText ++ "\nCommands:\n" ++
    String.join (Verb.all.map Verb.usageLine) ++
    "  help       Print this message or the help of the given subcommand(s)\n\nOptions:\n" ++
    "      --config <CONFIG>  Engine configuration file " ++
    "(defaults to ./jitlog.toml when present)\n" ++
    "      --color <COLOR>    When to use colors [default: auto] " ++
    "[possible values: auto, always, never]\n" ++
    "      --follow           Keep reading the log while the VM is still writing it\n" ++
    "  -h, --help             Print help\n" ++
    "  -V, --version          Print version\n"

/-- Said of arguments that make no command. -/
def misuseText : String :=
  "error: the arguments make no command\n\n" ++ callText ++
    "\nFor more information, try '--help'.\n"

end CompileLog.Console

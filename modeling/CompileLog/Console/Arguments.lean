import CompileLog.Analysis.Ranking
import CompileLog.Text.Blank

/-!
# Arguments

The arguments name a command, its operands and switches. Some switches belong to one command;
the common ones may stand in front of the command's name or behind it, and behind it they count
more. What is no argument of the program is refused as a whole, before anything is read.
-/

namespace CompileLog.Console

open Text

/-- When pages have colors. -/
inductive ColorChoice where
  /-- Where the terminal can show them. -/
  | auto
  | always
  | never
  deriving DecidableEq, Repr

/-- The choice with a name. -/
def ColorChoice.ofName? : String → Option ColorChoice
  | "auto" => some .auto
  | "always" => some .always
  | "never" => some .never
  | _ => none

/-- What the compiler can have removed. -/
inductive Removal where
  | allocations
  | locks
  deriving DecidableEq, Repr

/-- The removal with a name. -/
def Removal.ofName? : String → Option Removal
  | "allocations" => some .allocations
  | "locks" => some .locks
  | _ => none

/-- A switch. -/
inductive Switch where
  | config
  | color
  | follow
  | json
  | filter
  | limit
  | output
  deriving DecidableEq, Repr

/-- A number below 2^64. -/
def number64? (text : String) : Option UInt64 := (natural? text.toList).bind word64?

namespace Switch

/-- Whether a value belongs to a switch. -/
def takesValue : Switch → Bool
  | follow | json => false
  | config | color | filter | limit | output => true

/-- Whether a switch takes a value. -/
def accepts : Switch → String → Bool
  | config, value | output, value => value ≠ ""
  | color, value => (ColorChoice.ofName? value).isSome
  | limit, value => (number64? value).isSome
  | filter, _ => true
  | follow, _ | json, _ => false

/-- The name behind two hyphens. -/
def long : Switch → String
  | config => "config"
  | color => "color"
  | follow => "follow"
  | json => "json"
  | filter => "filter"
  | limit => "limit"
  | output => "output"

/-- The letter behind one hyphen. -/
def short? : Switch → Option Char
  | filter => some 'f'
  | limit => some 'n'
  | output => some 'o'
  | config | color | follow | json => none

/-- The switches that every command has. -/
def common : List Switch := [config, color, follow]

end Switch

/-- What an operand is. -/
inductive Operand where
  | file
  | text
  | task
  | ranking
  | removal
  deriving DecidableEq, Repr

/-- Whether an operand can be this. -/
def Operand.accepts : Operand → String → Bool
  | file, value => value ≠ ""
  | text, _ => true
  | task, value => (number64? value).isSome
  | ranking, value => (Ranking.ofLabel? value).isSome
  | removal, value => (Removal.ofName? value).isSome

/-- The name of a command. -/
inductive Verb where
  | summary
  | methods
  | history
  | tree
  | suggest
  | correlate
  | top
  | report
  | save
  | load
  deriving DecidableEq, Repr

namespace Verb

/-- All commands. -/
def all : List Verb :=
  [summary, methods, history, tree, suggest, correlate, top, report, save, load]

/-- The word for a command. -/
def word : Verb → String
  | summary => "summary"
  | methods => "methods"
  | history => "history"
  | tree => "tree"
  | suggest => "suggest"
  | correlate => "correlate"
  | top => "top"
  | report => "report"
  | save => "export"
  | load => "load"

/-- The command with a name. -/
def ofWord? (name : String) : Option Verb := all.find? fun v => v.word = name

/-- The switches of a command's own. -/
def switches : Verb → List Switch
  | summary => [.json]
  | methods => [.filter]
  | top => [.limit]
  | save => [.output]
  | history | tree | suggest | correlate | report | load => []

/-- The operands of a command, in order. -/
def operands : Verb → List Operand
  | summary | methods | save | load => [.file]
  | history => [.file, .text]
  | tree | suggest | correlate => [.file, .task]
  | top => [.file, .ranking]
  | report => [.file, .removal]

end Verb

/-- Where an argument stands. -/
inductive Place where
  /-- In front of the command's name. -/
  | front
  /-- Behind it. -/
  | behind (verb : Verb)
  deriving DecidableEq

/-- The switches that may stand at a place. -/
def Place.switches : Place → List Switch
  | front => Switch.common
  | behind verb => Switch.common ++ verb.switches

/-- What an argument is. -/
inductive Argument where
  /-- No switch. -/
  | word
  /-- What comes behind it is no switch. -/
  | ending
  /-- A wish for help. -/
  | help
  /-- A wish for the version. -/
  | version
  /-- A switch with the value that is joined to it. -/
  | switch (switch : Switch) (joined : Option String)
  /-- A switch that is not known here. -/
  | unknown
  deriving DecidableEq

/-- A switch with its name and the value joined to it. -/
def Place.longSwitch (place : Place) (name : String) (joined : Option String) : Argument :=
  match place.switches.find? fun s => s.long = name with
  | some s => .switch s joined
  | none =>
    if name = "help" ∧ joined = none then .help
    else if name = "version" ∧ joined = none ∧ place = .front then .version
    else .unknown

/-- A switch with its letter. What follows the letter is its value; an equals sign between
them is dropped. -/
def Place.shortSwitch (place : Place) (letter : Char) (after : List Char) : Argument :=
  match place.switches.find? fun s => s.short? = some letter with
  | some s =>
    match after with
    | [] => .switch s none
    | '=' :: value => .switch s (some (String.ofList value))
    | value => .switch s (some (String.ofList value))
  | none =>
    if letter = 'h' then .help
    else if letter = 'V' ∧ place = .front then .version
    else .unknown

/-- What an argument is. A hyphen alone is a word. -/
def Place.classify (place : Place) (argument : String) : Argument :=
  match argument.toList with
  | ['-', '-'] => .ending
  | '-' :: '-' :: rest =>
    match splitAt? '=' rest with
    | some (name, value) => place.longSwitch (String.ofList name) (some (String.ofList value))
    | none => place.longSwitch (String.ofList rest) none
  | '-' :: letter :: after => place.shortSwitch letter after
  | _ => .word

/-- The switches and operands read so far. -/
structure Given where
  /-- The switches with their values; a switch without a value has an empty one. -/
  switches : List (Switch × String)
  /-- The operands in order. -/
  operands : List String
  deriving DecidableEq

/-- Why no command comes of the arguments. -/
inductive Refusal where
  /-- Help is wished for. -/
  | help
  /-- The version is wished for. -/
  | version
  /-- Something is wrong with the arguments. -/
  | misuse
  deriving DecidableEq, Repr

namespace Given

/-- Nothing read. -/
def empty : Given := ⟨[], []⟩

/-- Adds a switch. None may be given twice at one place. -/
def addSwitch (given : Given) (s : Switch) (value : String) : Except Refusal Given :=
  if (given.switches.lookup s).isSome then .error .misuse
  else .ok { given with switches := given.switches ++ [(s, value)] }

/-- Adds a switch with its value, if it takes that. -/
def addValue (given : Given) (s : Switch) (value : String) : Except Refusal Given :=
  if s.accepts value then given.addSwitch s value else .error .misuse

/-- Adds an operand, if the command has one more and it can be this. -/
def addOperand (verb : Verb) (given : Given) (value : String) : Except Refusal Given :=
  match verb.operands[given.operands.length]? with
  | some o =>
    if o.accepts value then .ok { given with operands := given.operands ++ [value] }
    else .error .misuse
  | none => .error .misuse

end Given

/-- Reads the arguments at a place. In front of the command this ends at its name, and gives
what stands from there on. The value of a switch is joined to it or is the next argument, but
never one that looks like a switch. -/
def scan (place : Place) (given : Given) : List String → Except Refusal (Given × List String)
  | [] => .ok (given, [])
  | argument :: rest =>
    match place.classify argument with
    | .help => .error .help
    | .version => .error .version
    | .unknown => .error .misuse
    | .word =>
      match place with
      | .front => .ok (given, argument :: rest)
      | .behind verb => (given.addOperand verb argument).bind fun given => scan place given rest
    | .ending =>
      match place with
      | .front => .error .misuse
      | .behind verb => (rest.foldlM (Given.addOperand verb) given).map fun given => (given, [])
    | .switch s joined =>
      if !s.takesValue then
        if joined.isSome then .error .misuse
        else (given.addSwitch s "").bind fun given => scan place given rest
      else
        match joined with
        | some value => (given.addValue s value).bind fun given => scan place given rest
        | none =>
          match rest with
          | [] => .error .misuse
          | value :: rest =>
            if place.classify value = .word then
              (given.addValue s value).bind fun given => scan place given rest
            else .error .misuse

/-- What is to be done. -/
inductive Command where
  /-- Print the numbers of a log. -/
  | summary (log : String) (json : Bool)
  /-- List the compiled methods, or those whose printed form holds a text. -/
  | methods (log : String) (filter : Option String)
  /-- Print the history of a method. -/
  | history (log method : String)
  /-- Print the inlining decisions of a task. -/
  | tree (log : String) (id : UInt64)
  /-- Suggest what would get calls inlined, for one task or over all methods. -/
  | suggest (log : String) (id : Option UInt64)
  /-- Print the machine code of a task with its bytecodes. -/
  | correlate (log : String) (id : UInt64)
  /-- Print one ranking, or all. -/
  | top (log : String) (ranking : Option Ranking) (limit : Nat)
  /-- List what the compiler removed. -/
  | report (log : String) (removal : Removal)
  /-- Write a snapshot. -/
  | save (log output : String)
  /-- Print the numbers of a snapshot. -/
  | load (snapshot : String)
  deriving DecidableEq

/-- What every command can be told. -/
structure Options where
  /-- The file that holds the configuration. -/
  config : Option String
  color : ColorChoice
  /-- Whether the log is still being written. -/
  follow : Bool
  deriving DecidableEq

/-- The number of entries that a ranking has unless told otherwise. -/
def usualLimit : Nat := 10

/-- The command with a name, its operands and its switches. -/
def Verb.command? (verb : Verb) (given : Given) : Option Command :=
  let value? := fun s => given.switches.lookup s
  match verb, given.operands with
  | .summary, [log] => some (.summary log (value? .json).isSome)
  | .methods, [log] => some (.methods log (value? .filter))
  | .history, [log, method] => some (.history log method)
  | .tree, [log, id] => (number64? id).map (.tree log)
  | .suggest, [log] => some (.suggest log none)
  | .suggest, [log, id] => (number64? id).map fun id => .suggest log (some id)
  | .correlate, [log, id] => (number64? id).map (.correlate log)
  | .top, log :: ranking =>
    some (.top log (ranking.head?.bind Ranking.ofLabel?)
      ((((value? .limit).bind number64?).map UInt64.toNat).getD usualLimit))
  | .report, log :: removal =>
    some (.report log ((removal.head?.bind Removal.ofName?).getD .allocations))
  | .save, [log] => (value? .output).map (.save log)
  | .load, [snapshot] => some (.load snapshot)
  | _, _ => none

/-- The common options, from what stands behind the command's name and in front of it. -/
def Options.ofGiven (front behind : Given) : Options :=
  let value? := fun s => (behind.switches.lookup s).or (front.switches.lookup s)
  ⟨value? .config, ((value? .color).bind ColorChoice.ofName?).getD .auto,
    (value? .follow).isSome⟩

/-- Whether help can be given on what is named behind the word for help. -/
def helpOn : List String → Except Refusal (Options × Command)
  | [] => .error .help
  | [name] => if name = "help" ∨ (Verb.ofWord? name).isSome then .error .help else .error .misuse
  | _ => .error .misuse

/-- Reads all arguments. -/
def readArguments (arguments : List String) : Except Refusal (Options × Command) := do
  match ← scan .front .empty arguments with
  | (_, []) => .error .misuse
  | (front, name :: rest) =>
    if name = "help" then helpOn rest
    else
      match Verb.ofWord? name with
      | none => .error .misuse
      | some verb =>
        let (behind, _) ← scan (.behind verb) .empty rest
        match verb.command? behind with
        | some command => .ok (.ofGiven front behind, command)
        | none => .error .misuse

end CompileLog.Console

import CompileLog.Text.Blank

/-!
# Kinds of events and roles of attributes

A log is read through a vocabulary: each tag stands for a kind of event and each of its
attributes for a role. The role fixes how the attribute's text is read, and the kind
fixes which roles are read at all.
-/

namespace CompileLog

/-- What a tag of the log stands for. -/
inductive EventKind where
  /-- The root element of a log, with facts about the process. -/
  | logStart
  /-- An element whose text is a fact about the virtual machine. -/
  | headerText
  /-- A compiler thread starts. -/
  | compilerThread
  /-- The part of the log written by one compiler thread. -/
  | threadLog
  /-- A compilation is put into the queue. -/
  | taskQueued
  /-- A compilation begins. -/
  | taskStart
  /-- A compilation ends. -/
  | taskDone
  /-- The compiler gives up. -/
  | failure
  /-- A compiler phase begins. -/
  | phase
  /-- A compiler phase ends. -/
  | phaseDone
  /-- Defines the id of a primitive type. -/
  | typeDef
  /-- Defines the id of a class. -/
  | klassDef
  /-- Defines the id of a method. -/
  | methodDef
  /-- The compiler starts to parse a method body. -/
  | parseOpen
  /-- The compiler has parsed a method body. -/
  | parseDone
  /-- The bytecode the compiler is at. -/
  | bytecode
  /-- A call site. -/
  | call
  /-- The call is inlined. -/
  | inlineSuccess
  /-- The call is not inlined. -/
  | inlineFail
  /-- The call is replaced by an intrinsic. -/
  | intrinsic
  /-- A trap: planted while compiling, or hit while running. -/
  | uncommonTrap
  /-- One frame of an inlining chain. -/
  | jvms
  /-- An allocation is removed. -/
  | eliminateAllocation
  /-- A monitor operation is removed. -/
  | eliminateLock
  /-- A throw is compiled to raise a preallocated exception. -/
  | hotThrow
  /-- Compiled code is deoptimized. -/
  | deoptimized
  /-- Compiled code takes no more calls. -/
  | madeNotEntrant
  /-- Machine code is installed. -/
  | nmethod
  /-- Free space in the code cache. -/
  | codeCache
  /-- Printed machine code. -/
  | printNmethod
  /-- An element that only frames others. -/
  | structural
  deriving DecidableEq, Repr, Inhabited

/-- What an attribute of the log means. -/
inductive Role where
  /-- Number of the compilation. -/
  | compileId
  /-- A method, written `class name descriptor`. -/
  | signature
  /-- Id of a defined method. -/
  | methodRef
  /-- A method of a frame: written out, or the id of a defined one. -/
  | frameMethod
  /-- Id of a defined class. -/
  | klassRef
  /-- One for entering a monitor, zero for leaving it. -/
  | lockFlag
  /-- Why a monitor operation is not needed. -/
  | lockKind
  /-- Whether the exception exists already. -/
  | preallocated
  /-- Size of a method in bytecodes. -/
  | bytes
  /-- Number of calls. -/
  | count
  /-- Number of backward jumps. -/
  | backedges
  /-- Number of interpreted calls. -/
  | interpreterCount
  /-- Tier of the compilation. -/
  | level
  /-- Kind of the compilation. -/
  | compileKind
  /-- Bytecode index of an entry by on-stack replacement. -/
  | osrBci
  /-- Time. -/
  | stamp
  /-- Whether the compilation succeeded. -/
  | success
  /-- Size of the machine code. -/
  | nativeSize
  /-- Bytecodes inlined. -/
  | inlinedBytes
  /-- Why it happened. -/
  | reason
  /-- A name. -/
  | name
  /-- A thread. -/
  | thread
  /-- Number of nodes of the compiled graph. -/
  | nodes
  /-- Number of live nodes. -/
  | live
  /-- Id that a definition gives. -/
  | id
  /-- Id of the class that holds a method. -/
  | holder
  /-- Id of the type that a method returns. -/
  | returnType
  /-- Ids of the argument types. -/
  | arguments
  /-- Bytecode index. -/
  | bci
  /-- Bytecode. -/
  | opcode
  /-- Whether the call is to be inlined. -/
  | inlineFlag
  /-- What the trap asks for. -/
  | action
  /-- Name of the compiler. -/
  | compiler
  /-- Address of the code. -/
  | address
  /-- Address of its entry. -/
  | entry
  /-- Size of the code. -/
  | size
  /-- Offset of the instructions. -/
  | instsOffset
  /-- Free bytes in the code cache. -/
  | freeCodeCache
  /-- Program counter. -/
  | pc
  /-- Expected uses. -/
  | uses
  /-- Version of the log format. -/
  | version
  /-- Number of the process. -/
  | process
  /-- Start time in milliseconds. -/
  | timeMs
  deriving DecidableEq, Repr, Inhabited

/-- How the text of an attribute is read. -/
inductive ValueForm where
  /-- Decimal digits with an optional sign, within 64 bits. -/
  | integer
  /-- Hexadecimal digits, with or without `0x`. -/
  | address
  /-- `1` or `true`, `0` or `false`. -/
  | flag
  /-- Decimal seconds. -/
  | stamp
  /-- A method written out. -/
  | signature
  /-- An integer, else a method written out. -/
  | methodOrRef
  /-- Ids with blanks between them. -/
  | idList
  /-- The text itself. -/
  | text
  deriving DecidableEq, Repr, Inhabited

/-- Each word of a name that begins with a capital, in lower case, joined by `_`. -/
def snakeCase (name : String) : String :=
  match name.toList with
  | [] => ""
  | c :: rest =>
    String.ofList (Text.lowerAscii (c :: rest.flatMap fun d =>
      if 'A' ≤ d ∧ d ≤ 'Z' then ['_', d] else [d]))

namespace EventKind

/-- The name of a kind in messages. -/
def label : EventKind → String
  | .logStart => "LogStart"
  | .headerText => "HeaderText"
  | .compilerThread => "CompilerThread"
  | .threadLog => "ThreadLog"
  | .taskQueued => "TaskQueued"
  | .taskStart => "TaskStart"
  | .taskDone => "TaskDone"
  | .failure => "Failure"
  | .phase => "Phase"
  | .phaseDone => "PhaseDone"
  | .typeDef => "TypeDef"
  | .klassDef => "KlassDef"
  | .methodDef => "MethodDef"
  | .parseOpen => "ParseOpen"
  | .parseDone => "ParseDone"
  | .bytecode => "Bytecode"
  | .call => "Call"
  | .inlineSuccess => "InlineSuccess"
  | .inlineFail => "InlineFail"
  | .intrinsic => "Intrinsic"
  | .uncommonTrap => "UncommonTrap"
  | .jvms => "Jvms"
  | .eliminateAllocation => "EliminateAllocation"
  | .eliminateLock => "EliminateLock"
  | .hotThrow => "HotThrow"
  | .deoptimized => "Deoptimized"
  | .madeNotEntrant => "MadeNotEntrant"
  | .nmethod => "NMethod"
  | .codeCache => "CodeCache"
  | .printNmethod => "PrintNMethod"
  | .structural => "Structural"

/-- The name of a kind in configurations and answers. -/
def word : EventKind → String
  | .nmethod => "nmethod"
  | .printNmethod => "print_nmethod"
  | kind => snakeCase kind.label

/-- All kinds. -/
def all : List EventKind :=
  [.logStart, .headerText, .compilerThread, .threadLog, .taskQueued, .taskStart, .taskDone,
   .failure, .phase, .phaseDone, .typeDef, .klassDef, .methodDef, .parseOpen, .parseDone,
   .bytecode, .call, .inlineSuccess, .inlineFail, .intrinsic, .uncommonTrap, .jvms,
   .eliminateAllocation, .eliminateLock, .hotThrow, .deoptimized, .madeNotEntrant, .nmethod,
   .codeCache, .printNmethod, .structural]

/-- The kind of a name in configurations. -/
def ofWord? (word : String) : Option EventKind :=
  all.find? fun kind => kind.word == word

end EventKind

namespace Role

/-- The name of a role in messages. -/
def label : Role → String
  | .compileId => "CompileId"
  | .signature => "Signature"
  | .methodRef => "MethodRef"
  | .frameMethod => "FrameMethod"
  | .klassRef => "KlassRef"
  | .lockFlag => "LockFlag"
  | .lockKind => "LockKind"
  | .preallocated => "Preallocated"
  | .bytes => "Bytes"
  | .count => "Count"
  | .backedges => "Backedges"
  | .interpreterCount => "InterpreterCount"
  | .level => "Level"
  | .compileKind => "CompileKind"
  | .osrBci => "OsrBci"
  | .stamp => "Stamp"
  | .success => "Success"
  | .nativeSize => "NativeSize"
  | .inlinedBytes => "InlinedBytes"
  | .reason => "Reason"
  | .name => "Name"
  | .thread => "Thread"
  | .nodes => "Nodes"
  | .live => "Live"
  | .id => "Id"
  | .holder => "Holder"
  | .returnType => "ReturnType"
  | .arguments => "Arguments"
  | .bci => "Bci"
  | .opcode => "Opcode"
  | .inlineFlag => "InlineFlag"
  | .action => "Action"
  | .compiler => "Compiler"
  | .address => "Address"
  | .entry => "Entry"
  | .size => "Size"
  | .instsOffset => "InstsOffset"
  | .freeCodeCache => "FreeCodeCache"
  | .pc => "Pc"
  | .uses => "Uses"
  | .version => "Version"
  | .process => "Process"
  | .timeMs => "TimeMs"

/-- The name of a role in configurations and answers. -/
def word (role : Role) : String := snakeCase role.label

/-- All roles. -/
def all : List Role :=
  [.compileId, .signature, .methodRef, .frameMethod, .klassRef, .lockFlag, .lockKind,
   .preallocated, .bytes, .count, .backedges, .interpreterCount, .level, .compileKind, .osrBci,
   .stamp, .success, .nativeSize, .inlinedBytes, .reason, .name, .thread, .nodes, .live, .id,
   .holder, .returnType, .arguments, .bci, .opcode, .inlineFlag, .action, .compiler, .address,
   .entry, .size, .instsOffset, .freeCodeCache, .pc, .uses, .version, .process, .timeMs]

/-- The role of a name in configurations. -/
def ofWord? (word : String) : Option Role :=
  all.find? fun role => role.word == word

/-- How the text of an attribute in this role is read. -/
def form : Role → ValueForm
  | .address | .entry | .pc => .address
  | .lockFlag | .preallocated | .success | .inlineFlag => .flag
  | .stamp => .stamp
  | .signature => .signature
  | .frameMethod => .methodOrRef
  | .arguments => .idList
  | .lockKind | .compileKind | .reason | .name | .thread | .action | .compiler | .uses
  | .version => .text
  | _ => .integer

end Role

/-- The roles that events of a kind are read for, in order. An attribute in another role
is carried as unknown. -/
def EventKind.roles : EventKind → List Role
  | .logStart => [.version, .process, .timeMs]
  | .compilerThread => [.name, .thread, .stamp]
  | .threadLog => [.thread]
  | .taskQueued | .taskStart =>
    [.compileId, .signature, .bytes, .count, .backedges, .interpreterCount, .level, .compileKind,
     .osrBci, .stamp]
  | .taskDone => [.success, .nativeSize, .inlinedBytes, .stamp]
  | .failure => [.reason, .stamp]
  | .phase | .phaseDone => [.name, .nodes, .live, .stamp]
  | .typeDef | .klassDef => [.id, .name]
  | .methodDef => [.id, .holder, .name, .returnType, .arguments, .bytes, .interpreterCount]
  | .parseOpen => [.methodRef, .uses, .stamp]
  | .parseDone => [.stamp]
  | .bytecode => [.opcode, .bci]
  | .call => [.methodRef, .count, .inlineFlag]
  | .inlineSuccess | .inlineFail => [.reason]
  | .intrinsic => [.id, .name]
  | .uncommonTrap => [.compileId, .bci, .reason, .action, .stamp]
  | .jvms => [.bci, .frameMethod]
  | .eliminateAllocation => [.klassRef]
  | .eliminateLock => [.lockFlag, .lockKind]
  | .hotThrow => [.preallocated, .reason]
  | .deoptimized => [.compileId, .reason, .pc, .stamp]
  | .madeNotEntrant => [.compileId, .compiler, .level, .stamp]
  | .nmethod =>
    [.compileId, .compiler, .level, .compileKind, .address, .entry, .size, .instsOffset,
     .signature, .stamp]
  | .codeCache => [.freeCodeCache, .stamp]
  | .printNmethod => [.stamp, .compileId]
  | .headerText | .structural => []

end CompileLog

import CompileLog.Stamp
import CompileLog.Method
import CompileLog.Vocabulary.Role

/-!
# Events

What a log says, fragment by fragment, once tags and attributes have been given their
meaning. Every fact may be missing from the log, so nearly every field is optional.
-/

namespace CompileLog

/-- What is said about a compilation that is queued or begins. -/
structure TaskFacts where
  compileId : Option UInt64
  method : Option Method
  bytes : Option UInt32
  count : Option UInt64
  backedgeCount : Option UInt64
  interpreterCount : Option UInt64
  level : Option UInt8
  compileKind : Option String
  osrBci : Option UInt32
  stamp : Option Stamp
  deriving DecidableEq, Inhabited

/-- What is said about a phase that begins or ends. -/
structure PhaseFacts where
  name : Option String
  nodes : Option UInt64
  live : Option UInt64
  stamp : Option Stamp
  deriving DecidableEq, Inhabited

/-- What is said about installed machine code. -/
structure NativeFacts where
  compileId : Option UInt64
  compiler : Option String
  level : Option UInt8
  compileKind : Option String
  address : Option UInt64
  entry : Option UInt64
  size : Option UInt64
  instsOffset : Option UInt64
  method : Option Method
  stamp : Option Stamp
  deriving DecidableEq, Inhabited

/-- One event of a log. -/
inductive Event where
  /-- The log begins. -/
  | logStart (version : Option String) (process timeMs : Option UInt64)
  /-- A fact about the virtual machine, named after its element. -/
  | headerText (field text : String)
  /-- A compiler thread starts. -/
  | compilerThread (name thread : Option String) (stamp : Option Stamp)
  /-- What follows was written by this thread. -/
  | threadLog (thread : Option String)
  /-- A compilation is queued. -/
  | taskQueued (facts : TaskFacts)
  /-- A compilation begins. -/
  | taskStart (facts : TaskFacts)
  /-- The compilation ends. -/
  | taskDone (success : Option Bool) (nativeSize inlinedBytes : Option UInt64)
      (stamp : Option Stamp)
  /-- The compiler gives up. -/
  | failure (reason : Option String) (stamp : Option Stamp)
  /-- A phase begins. -/
  | phase (facts : PhaseFacts)
  /-- A phase ends. -/
  | phaseDone (facts : PhaseFacts)
  /-- An id for a primitive type. -/
  | typeDef (id : Option UInt64) (name : Option String)
  /-- An id for a class. -/
  | klassDef (id : Option UInt64) (name : Option String)
  /-- An id for a method. -/
  | methodDef (id holder : Option UInt64) (name : Option String) (returnType : Option UInt64)
      (arguments : Option (List UInt64)) (bytes : Option UInt32)
      (interpreterCount : Option UInt64)
  /-- The body of a method is parsed. -/
  | parseOpen (method : Option UInt64) (stamp : Option Stamp)
  /-- A method body has been parsed. -/
  | parseDone (stamp : Option Stamp)
  /-- The bytecode reached. -/
  | bytecode (opcode bci : Option UInt32)
  /-- A call. -/
  | call (method count : Option UInt64) (inlineFlag : Option Bool)
  /-- The call is inlined. -/
  | inlineSuccess (reason : Option String)
  /-- The call is not inlined. -/
  | inlineFail (reason : Option String)
  /-- The call is replaced by an intrinsic. -/
  | intrinsic (name : Option String)
  /-- A trap; with a compile id one that was hit, else one that is planted. -/
  | uncommonTrap (compileId : Option UInt64) (bci : Option UInt32)
      (reason action : Option String) (stamp : Option Stamp)
  /-- A frame of an inlining chain, innermost first; inside a task its method is named by
  an id. -/
  | jvms (bci : Option UInt32) (method : Option Method) (methodRef : Option UInt64)
  /-- An allocation is removed. -/
  | eliminateAllocation (klass : Option UInt64)
  /-- A monitor operation is removed. -/
  | eliminateLock (lock : Option Bool) (kind : Option String)
  /-- A throw raises a preallocated exception. -/
  | hotThrow (preallocated : Option Bool) (reason : Option String)
  /-- Compiled code is deoptimized. -/
  | deoptimized (compileId : Option UInt64) (reason : Option String) (pc : Option UInt64)
      (stamp : Option Stamp)
  /-- Compiled code takes no more calls. -/
  | madeNotEntrant (compileId : Option UInt64) (compiler : Option String)
      (level : Option UInt8) (stamp : Option Stamp)
  /-- Machine code is installed. -/
  | nmethod (facts : NativeFacts)
  /-- Free space in the code cache. -/
  | codeCache (freeCodeCache : Option UInt64) (stamp : Option Stamp)
  /-- A printed listing follows. -/
  | printNmethod (compileId : Option UInt64) (stamp : Option Stamp)
  /-- An element that only frames others. -/
  | structural
  /-- An element of this kind ends. -/
  | close (of : EventKind)
  /-- Printed machine code. -/
  | assemblyText (text : String)
  /-- Any other characters. -/
  | text (text : String)
  /-- A tag that the vocabulary does not know, as it stands. -/
  | unknown (tag : String) (attributes : List (String × String)) (closing : Bool)
  deriving DecidableEq

/-- Where an event came from. -/
inductive Shape where
  /-- A start tag. -/
  | opening
  /-- An element without content. -/
  | empty
  /-- An end tag. -/
  | closing
  /-- Characters. -/
  | text
  deriving DecidableEq, Repr

/-- An attribute whose text does not fit its role. -/
structure UnreadAttr where
  /-- Its name. -/
  name : String
  /-- The role it has. -/
  role : Role
  /-- Its text. -/
  raw : String
  deriving DecidableEq

/-- An event with its place in the log. -/
structure LogEvent where
  /-- The kind of fragment it came from. -/
  shape : Shape
  /-- The tag; for characters, the element around them. -/
  tag : String
  /-- What is said. -/
  event : Event
  /-- The attributes that could not be read. -/
  unread : List UnreadAttr
  /-- Number of elements around it. -/
  depth : Nat
  /-- The innermost element around it. -/
  parent : Option String
  /-- Number of bytes up to its end. -/
  position : Nat
  deriving DecidableEq

/-- Whether an event came from a tag that the vocabulary does not know. -/
def LogEvent.isUnknown (e : LogEvent) : Bool :=
  match e.event with
  | .unknown .. => true
  | _ => false

end CompileLog

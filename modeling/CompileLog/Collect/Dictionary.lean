import CompileLog.KeyMap
import CompileLog.Method

/-!
# The ids of a compilation

Inside a task the log refers to types, classes and methods by numbers, which it explains
before it uses them. A dictionary keeps the explanations; the last one for a number counts.
-/

namespace CompileLog.Collect

/-- A method explained inside a task. -/
structure KnownMethod where
  /-- The method. -/
  method : Method
  /-- Its size in bytecodes. -/
  bytes : Option UInt32
  deriving DecidableEq

/-- What the numbers of one task stand for. -/
structure Dictionary where
  /-- Names of primitive types. -/
  types : KeyMap UInt64 String
  /-- Names of classes. -/
  klasses : KeyMap UInt64 String
  /-- Methods. -/
  methods : KeyMap UInt64 KnownMethod

namespace Dictionary

/-- The dictionary that explains nothing. -/
def empty : Dictionary := ⟨∅, ∅, ∅⟩

/-- A class as it stands in a descriptor. -/
def classDescriptor (name : String) : String := "L" ++ name ++ ";"

/-- A type name as it stands in a descriptor. -/
def typeDescriptor (name : String) : String :=
  match name with
  | "void" => "V"
  | "boolean" => "Z"
  | "byte" => "B"
  | "char" => "C"
  | "short" => "S"
  | "int" => "I"
  | "long" => "J"
  | "float" => "F"
  | "double" => "D"
  | other => classDescriptor other

/-- The descriptor of a number: of a type, else of a class. An array class is its own
descriptor, and a number that nothing explains gives `?`. -/
def descriptor (d : Dictionary) (id : UInt64) : String :=
  match d.types.get? id with
  | some name => typeDescriptor name
  | none =>
    match d.klasses.get? id with
    | some name => if name.toList.head? = some '[' then name else classDescriptor name
    | none => "?"

/-- The descriptor of a method, from its argument types and its return type; without a
return type it returns nothing. -/
def signature (d : Dictionary) (arguments : List UInt64) (returnType : Option UInt64) : String :=
  "(" ++ String.join (arguments.map d.descriptor) ++ ")" ++
    (match returnType with
    | some id => d.descriptor id
    | none => "V")

/-- Stands for a name that the log leaves out. -/
def unknownName : String := "<unknown>"

/-- Explains a method. -/
def defineMethod (d : Dictionary) (id : UInt64) (holder : Option UInt64) (name : Option String)
    (returnType : Option UInt64) (arguments : Option (List UInt64)) (bytes : Option UInt32) :
    Dictionary :=
  let method : Method :=
    ⟨(holder.bind d.klasses.get?).getD unknownName, name.getD unknownName,
      d.signature (arguments.getD []) returnType⟩
  { d with methods := d.methods.insert id ⟨method, bytes⟩ }

/-- What is known of a method that may be named by a number. -/
def known? (d : Dictionary) (id : Option UInt64) : Option KnownMethod := id.bind d.methods.get?

/-- The method with a number; the stand-in if nothing explains it. -/
def methodOf (d : Dictionary) (id : Option UInt64) : Method :=
  ((d.known? id).map KnownMethod.method).getD .unresolved

/-- The size of the method with a number, if it is known. -/
def bytesOf (d : Dictionary) (id : Option UInt64) : Option UInt32 :=
  (d.known? id).bind KnownMethod.bytes

end Dictionary

end CompileLog.Collect

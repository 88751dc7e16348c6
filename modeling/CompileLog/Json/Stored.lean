import CompileLog.Json.Value
import CompileLog.Text.Numeral

/-!
# Values that are stored as JSON

How values of this library are written as JSON and read back. A structure becomes an object
with a member for each field; a case of an inductive type becomes its name, or an object
whose only member is named after it and holds its fields.

Reading is strict about what it knows and lenient about what it does not: unknown members
are passed over, a missing optional member reads as absent, but a repeated member, a number
out of range or a value of another shape is refused. A structure may also be written as the
list of its fields in order.
-/

namespace CompileLog.Json

open Text

/-- A type whose values can be written as JSON and read back. -/
class Stored (α : Type) where
  /-- The written form. -/
  write : α → Value
  /-- The value of a written form. -/
  read? : Value → Option α

export Stored (write read?)

/-- Reads a natural number below a bound. -/
def natBelow? (bound : Nat) : Value → Option Nat
  | .integer i => if 0 ≤ i ∧ i < bound then some i.toNat else none
  | _ => none

instance : Stored Bool where
  write := .bool
  read?
    | .bool b => some b
    | _ => none

instance : Stored String where
  write := .string
  read?
    | .string s => some s
    | _ => none

instance : Stored UInt64 where
  write n := .integer n.toNat
  read? v := (natBelow? UInt64.size v).map UInt64.ofNat

instance : Stored UInt32 where
  write n := .integer n.toNat
  read? v := (natBelow? UInt32.size v).map UInt32.ofNat

instance : Stored UInt8 where
  write n := .integer n.toNat
  read? v := (natBelow? UInt8.size v).map UInt8.ofNat

instance : Stored Int32 where
  write n := .integer n.toInt
  read?
    | .integer i => signed32? i
    | _ => none

instance {α : Type} [Stored α] : Stored (Option α) where
  write := Value.optional write
  read?
    | .null => some none
    | v => (read? v).map some

instance {α : Type} [Stored α] : Stored (List α) where
  write := Value.list write
  read?
    | .array vs => vs.mapM read?
    | _ => none

/-! ### Structures -/

/-- The fields of a structure that were found. -/
structure Fields where
  /-- Those found, by name. -/
  entries : List (String × Value)
  /-- Whether they were written as a list, which leaves no field out. -/
  positional : Bool

/-- Whether no name occurs twice. -/
def distinctNames : List String → Bool
  | [] => true
  | name :: rest => !rest.contains name && distinctNames rest

/-- Finds the fields of the given names. -/
def Fields.find? (names : List String) : Value → Option Fields
  | .object members =>
    let known := members.filter fun m => names.contains m.1
    if distinctNames (known.map Prod.fst) then some ⟨known, false⟩ else none
  | .array values =>
    if values.length ≤ names.length then some ⟨names.zip values, true⟩ else none
  | _ => none

namespace Fields

/-- A field that must be there, read in a given way. -/
def needAs {α : Type} (f : Fields) (name : String) (read : Value → Option α) : Option α :=
  (f.entries.lookup name).bind read

/-- A field that must be there. -/
def need {α : Type} [Stored α] (f : Fields) (name : String) : Option α :=
  f.needAs name read?

/-- A field that may be missing or `null`, read in a given way. -/
def maybeAs {α : Type} (f : Fields) (name : String) (read : Value → Option α) :
    Option (Option α) :=
  match f.entries.lookup name with
  | none => if f.positional then none else some none
  | some .null => some none
  | some v => (read v).map some

/-- A field that may be missing or `null`. -/
def maybe {α : Type} [Stored α] (f : Fields) (name : String) : Option (Option α) :=
  f.maybeAs name read?

/-- A field that may be missing and then has a value of its own, read in a given way. -/
def orElseAs {α : Type} (f : Fields) (name : String) (absent : α) (read : Value → Option α) :
    Option α :=
  match f.entries.lookup name with
  | none => some absent
  | some v => read v

/-- A field that may be missing and then has a value of its own. -/
def orElse {α : Type} [Stored α] (f : Fields) (name : String) (absent : α) : Option α :=
  f.orElseAs name absent read?

end Fields

/-! ### Cases -/

/-- The name of a case and what is stored with it. -/
def case? : Value → Option (String × Option Value)
  | .string name => some (name, none)
  | .object [(name, v)] => some (name, some v)
  | _ => none

/-- Reads a case that holds nothing. -/
def bare {α : Type} (a : α) : Option Value → Option α
  | none | some .null => some a
  | some _ => none

/-- Reads a case that holds one value. -/
def holding {α β : Type} [Stored β] (f : β → α) : Option Value → Option α
  | some v => (read? v).map f
  | none => none

/-- Reads a case that holds named fields. -/
def withFields {α : Type} (names : List String) (f : Fields → Option α) :
    Option Value → Option α
  | some v => (Fields.find? names v).bind f
  | none => none

/-- Writes a case that holds something. -/
def caseOf (name : String) (held : Value) : Value := .object [(name, held)]

end CompileLog.Json

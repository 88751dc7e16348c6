import CompileLog.Stamp
import CompileLog.Method
import CompileLog.Vocabulary.Role

/-!
# Attribute values

The text of an attribute is read in the form that its role asks for. A text that does not
fit the form gives no value. Several attributes may be mapped to one role; the first whose
text can be read counts.
-/

namespace CompileLog

open Text

/-- A value read from an attribute. Integers lie within 64 bits with sign. -/
inductive AttrValue where
  | integer (value : Int)
  | address (value : UInt64)
  | flag (value : Bool)
  | stamp (value : Stamp)
  | signature (value : Method)
  | ids (value : List UInt64)
  | text (value : String)
  deriving DecidableEq

/-- An integer within 64 bits with sign. -/
def integer64? (cs : List Char) : Option Int :=
  (integer? cs).bind fun i => if -(signBound64 : Int) ≤ i ∧ i < signBound64 then some i else none

/-- Hexadecimal digits without one leading `0x`. -/
def withoutHexMark : List Char → List Char
  | '0' :: 'x' :: digits => digits
  | '0' :: 'X' :: digits => digits
  | cs => cs

/-- Reads a text in a form. Blanks around it do not count, except where the text itself is
the value. -/
def ValueForm.read? (form : ValueForm) (raw : String) : Option AttrValue :=
  let cs := trim raw.toList
  match form with
  | .integer => (integer64? cs).map .integer
  | .address => ((hexNatural? (withoutHexMark cs)).bind word64?).map .address
  | .flag =>
    if cs = "1".toList ∨ cs = "true".toList then some (.flag true)
    else if cs = "0".toList ∨ cs = "false".toList then some (.flag false)
    else none
  | .stamp => (Stamp.parse? raw).map .stamp
  | .signature => (Method.parse? raw).map .signature
  | .methodOrRef =>
    match integer64? cs with
    | some i => some (.integer i)
    | none => (Method.parse? raw).map .signature
  | .idList => ((words cs).mapM fun word => (natural? word).bind word64?).map .ids
  | .text => some (.text raw)

/-- The values of one fragment, by role, in document order. -/
abbrev AttrValues := List (Role × AttrValue)

namespace AttrValues

/-- The first value of a role. -/
def first? (values : AttrValues) (role : Role) : Option AttrValue :=
  List.lookup role values

/-- An integer. An address counts as one if it fits. -/
def integer? (values : AttrValues) (role : Role) : Option Int :=
  match values.first? role with
  | some (.integer i) => some i
  | some (.address a) => if a.toNat < signBound64 then some (Int.ofNat a.toNat) else none
  | _ => none

/-- An integer that is not negative. Negative numbers mark absence in logs. -/
def natural? (values : AttrValues) (role : Role) : Option Nat :=
  (values.integer? role).bind fun i => if 0 ≤ i then some i.toNat else none

/-- A natural number within 64 bits. -/
def word64? (values : AttrValues) (role : Role) : Option UInt64 :=
  (values.natural? role).bind Text.word64?

/-- A natural number within 32 bits. -/
def word32? (values : AttrValues) (role : Role) : Option UInt32 :=
  (values.natural? role).bind Text.word32?

/-- A natural number within 8 bits. -/
def word8? (values : AttrValues) (role : Role) : Option UInt8 :=
  (values.natural? role).bind Text.word8?

/-- An address. An integer counts as one if it is not negative. -/
def address? (values : AttrValues) (role : Role) : Option UInt64 :=
  match values.first? role with
  | some (.address a) => some a
  | some (.integer i) => if 0 ≤ i then Text.word64? i.toNat else none
  | _ => none

/-- A truth value. -/
def flag? (values : AttrValues) (role : Role) : Option Bool :=
  match values.first? role with
  | some (.flag b) => some b
  | _ => none

/-- A stamp. -/
def stamp? (values : AttrValues) (role : Role) : Option Stamp :=
  match values.first? role with
  | some (.stamp s) => some s
  | _ => none

/-- A text. -/
def text? (values : AttrValues) (role : Role) : Option String :=
  match values.first? role with
  | some (.text t) => some t
  | _ => none

/-- A list of ids. -/
def ids? (values : AttrValues) (role : Role) : Option (List UInt64) :=
  match values.first? role with
  | some (.ids ids) => some ids
  | _ => none

/-- A method written out. -/
def signature? (values : AttrValues) (role : Role) : Option Method :=
  match values.first? role with
  | some (.signature m) => some m
  | _ => none

end AttrValues

end CompileLog

/-!
# JSON values

The data that snapshots and reports are written in. An object keeps its members in
the order written, repeated names included, so that a reader can refuse repetitions.
Strings that stand for no text are told apart, so that a reader can pass them over without
ever taking them for one.
-/

namespace CompileLog.Json

/-- A JSON value. `real` stands for every number that is not written as a plain
integer: with a fraction, with an exponent, or as a negative zero. `garbled` stands for a
string without a text, and for an object with such a string among its names. -/
inductive Value where
  | null
  | bool (value : Bool)
  | integer (value : Int)
  | real (literal : String)
  | string (value : String)
  | garbled
  | array (elements : List Value)
  | object (members : List (String × Value))
  deriving Inhabited

/-- A natural number as a value. -/
def Value.natural (n : Nat) : Value := .integer n

/-- An optional value: `null` where it is absent. -/
def Value.optional {α : Type} (write : α → Value) : Option α → Value
  | some a => write a
  | none => .null

/-- A list, element by element. -/
def Value.list {α : Type} (write : α → Value) (xs : List α) : Value :=
  .array (xs.map write)

end CompileLog.Json

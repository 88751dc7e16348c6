import CompileLog.Toml.Scalar

/-!
# Tables of TOML

A document is a table of keys and values that grows statement by statement. Every table
remembers how it came about, because each may be written in one place only: what a header
opened is not opened again, what dotted keys began is only continued by dotted keys, and a
table in braces is complete.
-/

namespace CompileLog.Toml

/-- How a table came about. -/
inductive Origin where
  /-- A header, or the document itself. -/
  | header
  /-- A longer header implies it. -/
  | implied
  /-- A dotted key. -/
  | dotted
  /-- Braces. -/
  | braces
  deriving DecidableEq

/-- A value. -/
inductive Node where
  /-- A string. -/
  | text (s : String)
  /-- A number, a point in time or a truth value. -/
  | scalar (s : Scalar)
  /-- An array in brackets. -/
  | array (items : List Node)
  /-- The tables that headers in double brackets opened. -/
  | tables (items : List Node)
  /-- A table. -/
  | table (origin : Origin) (members : List (String × Node))

/-- The members of a table. -/
abbrev Members := List (String × Node)

namespace Members

/-- The members with the value of one key set, in place if the key is there. -/
def set (key : String) (value : Node) : Members → Members
  | [] => [(key, value)]
  | m :: rest => if m.1 = key then (key, value) :: rest else m :: set key value rest

/-- Adds a value under a dotted key. Tables on the way are begun, or continued if dotted keys
began them. A key that is there already is refused. -/
def assign (path : List String) (key : String) (value : Node) (members : Members) :
    Option Members :=
  match path with
  | [] => if (members.lookup key).isSome then none else some (members ++ [(key, value)])
  | part :: path =>
    match members.lookup part with
    | none =>
      (assign path key value []).map fun inner => members ++ [(part, .table .dotted inner)]
    | some (.table origin inner) =>
      if origin = .dotted ∨ (origin = .implied ∧ path ≠ []) then
        (assign path key value inner).map fun inner => members.set part (.table origin inner)
      else none
    | some (.tables items) =>
      match items.getLast?, path with
      | some (.table origin inner), _ :: _ =>
        (assign path key value inner).map fun inner =>
          members.set part (.tables (items.dropLast ++ [.table origin inner]))
      | _, _ => none
    | some _ => none

/-- Changes what stands under a path. Tables on the way are implied where they are missing; of
the tables of one array the last is meant. -/
def reach (path : List String) (key : String) (f : Option Node → Option Node)
    (members : Members) : Option Members :=
  match path with
  | [] => (f (members.lookup key)).map fun node => members.set key node
  | part :: path =>
    match members.lookup part with
    | none => (reach path key f []).map fun inner => members ++ [(part, .table .implied inner)]
    | some (.table origin inner) =>
      if origin = .braces then none
      else (reach path key f inner).map fun inner => members.set part (.table origin inner)
    | some (.tables items) =>
      match items.getLast? with
      | some (.table origin inner) =>
        (reach path key f inner).map fun inner =>
          members.set part (.tables (items.dropLast ++ [.table origin inner]))
      | _ => none
    | some _ => none

/-- Adds a value under a key of one or more parts. -/
def assignKey (members : Members) (key : List String) (value : Node) : Option Members :=
  match key.getLast? with
  | some last => assign key.dropLast last value members
  | none => none

/-- Adds values under their keys, one by one. -/
def assignAll (members : Members) (assignments : List (List String × Node)) : Option Members :=
  assignments.foldlM (fun members (key, value) => members.assignKey key value) members

end Members

/-- What stands under a header after the assignments below it. -/
def openTable (assignments : List (List String × Node)) (before : Option Node) : Option Node :=
  match before with
  | none => (Members.assignAll [] assignments).map (.table .header)
  | some (.table .implied members) =>
    (Members.assignAll members assignments).map (.table .header)
  | some _ => none

/-- What stands under a header in double brackets after the assignments below it. -/
def openElement (assignments : List (List String × Node)) (before : Option Node) : Option Node :=
  match before with
  | none =>
    (Members.assignAll [] assignments).map fun members => .tables [.table .header members]
  | some (.tables items) =>
    (Members.assignAll [] assignments).map fun members =>
      .tables (items ++ [.table .header members])
  | some _ => none

end CompileLog.Toml

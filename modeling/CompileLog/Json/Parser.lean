import CompileLog.Json.Value
import CompileLog.Json.Token

/-!
# Reading JSON

`parse?` reads a text that holds exactly one value. It works on tokens; the bound on
the depth of calls is computed from their number, so it never cuts a value short.
-/

namespace CompileLog.Json

/-- The name of a member, if the token is one. A garbled name is none that anyone can ask for. -/
def name? : Token → Option (Option String)
  | .string name => some (some name)
  | .garbled => some none
  | _ => none

/-- An object of members, if all names stand for a text. -/
def objectOf (members : List (Option String × Value)) : Value :=
  match members.mapM fun (name, v) => name.map fun name => (name, v) with
  | some named => .object named
  | none => .garbled

mutual

/-- A value at the front of the tokens, and the tokens after it. -/
def value? : Nat → List Token → Option (Value × List Token)
  | 0, _ => none
  | fuel + 1, tokens =>
    match tokens with
    | .null :: rest => some (.null, rest)
    | .bool b :: rest => some (.bool b, rest)
    | .integer i :: rest => some (.integer i, rest)
    | .real l :: rest => some (.real l, rest)
    | .string s :: rest => some (.string s, rest)
    | .garbled :: rest => some (.garbled, rest)
    | .leftBracket :: .rightBracket :: rest => some (.array [], rest)
    | .leftBracket :: rest => (elements? fuel rest).map fun (vs, after) => (.array vs, after)
    | .leftBrace :: .rightBrace :: rest => some (.object [], rest)
    | .leftBrace :: rest => (members? fuel rest).map fun (ms, after) => (objectOf ms, after)
    | _ => none

/-- One or more elements up to the closing bracket. -/
def elements? : Nat → List Token → Option (List Value × List Token)
  | 0, _ => none
  | fuel + 1, tokens =>
    match value? fuel tokens with
    | some (v, .rightBracket :: rest) => some ([v], rest)
    | some (v, .comma :: rest) => (elements? fuel rest).map fun (vs, after) => (v :: vs, after)
    | _ => none

/-- One or more members up to the closing brace. -/
def members? : Nat → List Token → Option (List (Option String × Value) × List Token)
  | 0, _ => none
  | fuel + 1, tokens =>
    match tokens with
    | token :: .colon :: rest =>
      match name? token, value? fuel rest with
      | some name, some (v, .rightBrace :: rest') => some ([(name, v)], rest')
      | some name, some (v, .comma :: rest') =>
        (members? fuel rest').map fun (ms, after) => ((name, v) :: ms, after)
      | _, _ => none
    | _ => none

end

/-- The value that a text holds, if it holds exactly one. Parts of the text that are no
characters may stand inside strings. -/
def parse? (text : List (Option Char)) : Option Value :=
  match lex? text with
  | none => none
  | some tokens =>
    match value? (2 * tokens.length + 2) tokens with
    | some (v, []) => some v
    | _ => none

end CompileLog.Json

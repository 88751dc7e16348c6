import CompileLog.Json.Value
import CompileLog.Json.Token

/-!
# Writing JSON

Two layouts of the same tokens: `compact` without any blank, and `pretty` with one
member or element a line, indented by two blanks a level.
-/

namespace CompileLog.Json

mutual

/-- The tokens of a value. -/
def Value.tokens : Value → List Token
  | .null => [.null]
  | .bool b => [.bool b]
  | .integer i => [.integer i]
  | .real l => [.real l]
  | .string s => [.string s]
  | .garbled => [.garbled]
  | .array vs => .leftBracket :: tokensOfElements vs ++ [.rightBracket]
  | .object ms => .leftBrace :: tokensOfMembers ms ++ [.rightBrace]

/-- The tokens of elements, with commas between them. -/
def tokensOfElements : List Value → List Token
  | [] => []
  | [v] => v.tokens
  | v :: rest => v.tokens ++ .comma :: tokensOfElements rest

/-- The tokens of members, with commas between them. -/
def tokensOfMembers : List (String × Value) → List Token
  | [] => []
  | [(name, v)] => .string name :: .colon :: v.tokens
  | (name, v) :: rest => .string name :: .colon :: v.tokens ++ .comma :: tokensOfMembers rest

end

/-- The text of a value without blanks. -/
def Value.compact (v : Value) : List Char :=
  v.tokens.flatMap Token.write

/-- A line break and the indentation of a level. -/
def newline (level : Nat) : List Char :=
  '\n' :: List.replicate (2 * level) ' '

mutual

/-- The text of a value at an indentation level, one element or member a line. -/
def Value.prettyAt (level : Nat) : Value → List Char
  | .array [] => ['[', ']']
  | .object [] => ['{', '}']
  | .array (v :: vs) =>
    '[' :: newline (level + 1) ++ Value.prettyAt (level + 1) v ++
      prettyElements (level + 1) vs ++ newline level ++ [']']
  | .object ((name, v) :: ms) =>
    '{' :: newline (level + 1) ++ (Token.string name).write ++ [':', ' '] ++
      Value.prettyAt (level + 1) v ++ prettyMembers (level + 1) ms ++ newline level ++ ['}']
  | .null => Token.null.write
  | .bool b => (Token.bool b).write
  | .integer i => (Token.integer i).write
  | .real l => (Token.real l).write
  | .string s => (Token.string s).write
  | .garbled => Token.garbled.write

/-- The elements after the first, each behind a comma and on its own line. -/
def prettyElements (level : Nat) : List Value → List Char
  | [] => []
  | v :: vs => ',' :: newline level ++ Value.prettyAt level v ++ prettyElements level vs

/-- The members after the first, each behind a comma and on its own line. -/
def prettyMembers (level : Nat) : List (String × Value) → List Char
  | [] => []
  | (name, v) :: ms =>
    ',' :: newline level ++ (Token.string name).write ++ [':', ' '] ++
      Value.prettyAt level v ++ prettyMembers level ms

end

/-- The text of a value in the indented layout. -/
def Value.pretty (v : Value) : List Char := v.prettyAt 0

end CompileLog.Json

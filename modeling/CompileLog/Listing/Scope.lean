import CompileLog.Text.DecimalDigit
import CompileLog.Text.Numeral

/-!
# Scope comments

A comment such as `; - Foo::bar@4 (line 10)` names the frame that an instruction belongs
to: class, method, bytecode index and perhaps a source line. The class may itself hold two
colons; it is then taken as long as possible.
-/

namespace CompileLog.Listing

open Text

/-- The frame named by a scope comment. -/
structure ScopeFrame where
  /-- The class. -/
  className : String
  /-- The method's name. -/
  methodName : String
  /-- The bytecode index; negative for code of the compiler's own. -/
  bci : Int32
  /-- The source line. -/
  line : Option UInt32
  deriving DecidableEq

/-- The digits of a bytecode index with its sign, and what follows. -/
def bciText? (cs : List Char) : Option (List Char × List Char) :=
  let (sign, rest) :=
    match cs with
    | '-' :: rest => (['-'], rest)
    | _ => ([], cs)
  let run := rest.takeWhile isAnyDigit
  if run.isEmpty then none else some (sign ++ run, rest.dropWhile isAnyDigit)

/-- The method's name and the text of its bytecode index, where two colons have just been
read, and what follows. -/
def methodAtBci? (cs : List Char) : Option (List Char × List Char × List Char) :=
  let name := cs.takeWhile fun c => !(c == '@' || isBlank c)
  if name.isEmpty then none
  else
    match cs.dropWhile fun c => !(c == '@' || isBlank c) with
    | '@' :: rest => (bciText? rest).map fun (bci, after) => (name, bci, after)
    | _ => none

/-- Class, method's name, text of the bytecode index and what follows, where the class has
begun with the characters `before`, last first. The latest two colons that make the rest
fit end the class. -/
def frameFrom? (before : List Char) :
    List Char → Option (List Char × List Char × List Char × List Char)
  | [] => none
  | c :: rest =>
    if isBlank c then none
    else
      match frameFrom? (c :: before) rest with
      | some found => some found
      | none =>
        match before, c, rest with
        | _ :: _, ':', ':' :: after =>
          (methodAtBci? after).map fun (name, bci, tail) => (before.reverse, name, bci, tail)
        | _, _, _ => none

/-- The digits of a source line behind a frame. -/
def lineText? (cs : List Char) : Option (List Char) :=
  match trimStart cs with
  | '(' :: 'l' :: 'i' :: 'n' :: 'e' :: ' ' :: rest =>
    let run := rest.takeWhile isAnyDigit
    if run.isEmpty then none
    else if (rest.dropWhile isAnyDigit).head? = some ')' then some run
    else none
  | _ => none

/-- The characters of a frame behind the semicolon and the hyphen. -/
def frameText? (comment : List Char) : Option (List Char) :=
  match trimStart comment with
  | ';' :: rest =>
    match trimStart rest with
    | '-' :: rest => some (trimStart rest)
    | _ => none
  | _ => none

/-- Reads a scope comment. A bytecode index beyond 32 bits makes it no scope comment; a
line beyond 32 bits is left out. -/
def parseScope? (comment : String) : Option ScopeFrame :=
  match (frameText? comment.toList).bind (frameFrom? []) with
  | none => none
  | some (className, name, bci, after) =>
    ((integer? bci).bind signed32?).map fun bci =>
      { className := String.ofList className
        methodName := String.ofList name
        bci
        line := ((lineText? after).bind natural?).bind word32? }

end CompileLog.Listing

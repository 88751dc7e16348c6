import CompileLog.Toml.Table
import CompileLog.Toml.Text

/-!
# Documents of TOML

A document is a list of sections. The first has no header and every other one begins with
one; all hold assignments, one a line. Values stand within each other to a limited depth.
-/

namespace CompileLog.Toml

/-- The characters after blanks, comments and line breaks. -/
def skipLines (limit : Nat) (cs : List Char) : List Char :=
  match limit with
  | 0 => cs
  | limit + 1 =>
    match newline? (skipComment (skipSpace cs)) with
    | some rest => skipLines limit rest
    | none => skipSpace cs

/-- The characters at the next element of an array, or at its end. -/
def skipFiller (cs : List Char) : List Char := skipLines cs.length cs

/-- The elements of an array up to its closing bracket, which a comma may precede. -/
def elements? (value? : List Char → Read Node) : Nat → List Char → Read (List Node)
  | 0, _ => none
  | limit + 1, cs =>
    match skipFiller cs with
    | ']' :: rest => some ([], rest)
    | cs =>
      match value? cs with
      | none => none
      | some (v, rest) =>
        match skipFiller rest with
        | ',' :: rest => (elements? value? limit rest).map fun (vs, after) => (v :: vs, after)
        | ']' :: rest => some ([v], rest)
        | _ => none

/-- A key, the sign between, and a value. -/
def assignment? (value? : List Char → Read Node) (cs : List Char) :
    Read (List String × Node) :=
  match key? cs with
  | some (key, '=' :: rest) => (value? (skipSpace rest)).map fun (v, after) => ((key, v), after)
  | _ => none

/-- The assignments in braces up to the closing one, at least one. -/
def assignments? (value? : List Char → Read Node) :
    Nat → List Char → Read (List (List String × Node))
  | 0, _ => none
  | limit + 1, cs =>
    match assignment? value? cs with
    | none => none
    | some (a, rest) =>
      match skipSpace rest with
      | ',' :: rest => (assignments? value? limit rest).map fun (as, after) => (a :: as, after)
      | '}' :: rest => some ([a], rest)
      | _ => none

/-- A table in braces, behind the opening one. -/
def braces? (value? : List Char → Read Node) (cs : List Char) : Read Node :=
  match skipSpace cs with
  | '}' :: rest => some (.table .braces [], rest)
  | cs =>
    match assignments? value? (cs.length + 1) cs with
    | some (as, rest) =>
      (Members.assignAll [] as).map fun members => (.table .braces members, rest)
    | none => none

/-- A value that holds others to at most the given depth. -/
def value? : Nat → List Char → Read Node
  | depth, cs =>
    match cs with
    | '"' :: _ | '\'' :: _ => (text? cs).map fun (s, rest) => (.text s, rest)
    | '[' :: rest =>
      match depth with
      | 0 => none
      | depth + 1 =>
        (elements? (value? depth) (rest.length + 1) rest).map fun (vs, after) =>
          (.array vs, after)
    | '{' :: rest =>
      match depth with
      | 0 => none
      | depth + 1 => braces? (value? depth) rest
    | cs => (scalar cs).map fun (s, rest) => (.scalar s, rest)

/-- What a section says of its place. -/
inductive Header where
  /-- It opens a table. -/
  | table (key : List String)
  /-- It opens the next table of an array. -/
  | element (key : List String)

/-- A header with the assignments below it. -/
structure Section where
  header : Option Header
  /-- The assignments, last first. -/
  assignments : List (List String × Node)

/-- A header with its brackets. -/
def header? : List Char → Read Header
  | '[' :: '[' :: rest =>
    match key? rest with
    | some (key, ']' :: ']' :: rest) => some (.element key, rest)
    | _ => none
  | '[' :: rest =>
    match key? rest with
    | some (key, ']' :: rest) => some (.table key, rest)
    | _ => none
  | _ => none

/-- The sections of a document, last first; `current` is the one being read. -/
def sections? (done : List Section) (current : Section) : Nat → List Char → Option (List Section)
  | 0, _ => none
  | limit + 1, cs =>
    match skipSpace cs with
    | [] => some (current :: done)
    | '[' :: rest =>
      match header? ('[' :: rest) with
      | none => none
      | some (header, rest) =>
        (lineEnd? rest).bind (sections? (current :: done) ⟨some header, []⟩ limit)
    | cs =>
      match lineEnd? cs with
      | some rest => sections? done current limit rest
      | none =>
        match assignment? (value? depthLimit) cs with
        | none => none
        | some (a, rest) =>
          (lineEnd? rest).bind
            (sections? done { current with assignments := a :: current.assignments } limit)

/-- A document with one more section. -/
def addSection (members : Members) (s : Section) : Option Members :=
  let assignments := s.assignments.reverse
  match s.header with
  | none => members.assignAll assignments
  | some (.table key) =>
    key.getLast?.bind fun last => members.reach key.dropLast last (openTable assignments)
  | some (.element key) =>
    key.getLast?.bind fun last => members.reach key.dropLast last (openElement assignments)

/-- The characters after a byte order mark. -/
def skipMark : List Char → List Char
  | '\uFEFF' :: rest => rest
  | cs => cs

/-- The members of the table that a document is. -/
def parse? (text : List Char) : Option Members :=
  let cs := skipMark text
  match sections? [] ⟨none, []⟩ (cs.length + 1) cs with
  | some sections => sections.reverse.foldlM addSection []
  | none => none

end CompileLog.Toml

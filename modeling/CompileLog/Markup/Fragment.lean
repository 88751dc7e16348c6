import CompileLog.Markup.Piece

/-!
# Fragments and nesting

A fragment is a piece of the log together with its place: how many elements enclose it,
which is the innermost, and where in the input it ends. Nesting is kept as the list of
open elements, innermost first. An end tag closes the innermost open element of its name
and everything opened inside it; one that matches no open element changes nothing.
-/

namespace CompileLog.Markup

/-- What a fragment holds. -/
inductive Content where
  /-- A start tag. -/
  | opening (name : String) (attributes : List (String × String))
  /-- An element without content. -/
  | empty (name : String) (attributes : List (String × String))
  /-- An end tag. -/
  | closing (name : String)
  /-- Characters. -/
  | text (text : String)
  deriving DecidableEq

/-- A piece of the log and its place. -/
structure Fragment where
  /-- What it holds. -/
  content : Content
  /-- Number of elements around it. -/
  depth : Nat
  /-- Name of the innermost element around it. -/
  parent : Option String
  /-- Number of bytes up to its end. -/
  position : Nat
  deriving DecidableEq

/-- The name of a tag; for characters, of the element around them. -/
def Fragment.name (f : Fragment) : String :=
  match f.content with
  | .opening name _ | .empty name _ | .closing name => name
  | .text _ => f.parent.getD ""

/-- The attributes of a start tag or empty element, in document order. -/
def Fragment.attributes (f : Fragment) : List (String × String) :=
  match f.content with
  | .opening _ attributes | .empty _ attributes => attributes
  | .closing _ | .text _ => []

/-- The first attribute of a name. -/
def Fragment.attr? (f : Fragment) (name : String) : Option String :=
  f.attributes.lookup name

/-- The open elements after an end tag. -/
def closeElement (name : String) (opened : List String) : List String :=
  match opened.dropWhile (· ≠ name) with
  | [] => opened
  | _ :: outer => outer

/-- The content that a piece delivers, if any. Text that is empty is not delivered, but an
empty character section is. -/
def Piece.content? : Piece → Option Content
  | .tag raw =>
    if raw.getLast? = some 0x2F then
      let raw := raw.dropLast
      some (.empty (String.ofList (Text.Utf8.decodeLossy (tagName raw))) (Markup.attributes raw))
    else
      some (.opening (String.ofList (Text.Utf8.decodeLossy (tagName raw)))
        (Markup.attributes raw))
  | .endTag raw => some (.closing (String.ofList (Text.Utf8.decodeLossy raw)))
  | .text raw => let text := unescape raw; if text = "" then none else some (.text text)
  | .cdata raw => some (.text (String.ofList (Text.Utf8.decodeLossy raw)))
  | .silent => none

/-- Places content among the open elements: the fragment, and the elements open behind
it. A start tag stands outside its own element, and so does an end tag. -/
def place (content : Content) (opened : List String) (position : Nat) :
    Fragment × List String :=
  match content with
  | .opening name _ => (⟨content, opened.length, opened.head?, position⟩, name :: opened)
  | .closing name =>
    let left := closeElement name opened
    (⟨content, left.length, left.head?, position⟩, left)
  | .empty _ _ | .text _ => (⟨content, opened.length, opened.head?, position⟩, opened)

end CompileLog.Markup

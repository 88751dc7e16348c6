import CompileLog.Files
import CompileLog.Text.Blank

/-!
# Folders

Files kept in memory, as they lie in a directory. A path leads to them name by name: an empty
name and a point stay where they are, two points lead one directory up, and every other name
leads to what lies under it. Nothing is known of what lies outside the folder, apart from the
file of the system that is always empty.
-/

namespace CompileLog

/-- Files with the names that lead to them from the folder. -/
abbrev Folder := List (List String × List UInt8)

/-- Where names lead. -/
inductive Place where
  /-- To what lies in the folder under these names, if anything does. -/
  | within (names : List String)
  /-- To what lies in the system under these names, if anything does. -/
  | rooted (names : List String)
  /-- To a directory above the folder. -/
  | above
  /-- To something next to the folder or to a directory above it. -/
  | beside
  deriving DecidableEq

/-- Where one more name leads. -/
def Place.step (place : Place) (name : String) : Place :=
  if name.isEmpty || name = "." then place
  else
    match place with
    | .within names =>
      if name ≠ ".." then .within (names ++ [name])
      else if names.isEmpty then .above
      else .within names.dropLast
    | .rooted names => if name = ".." then .rooted names.dropLast else .rooted (names ++ [name])
    | .above => if name = ".." then .above else .beside
    | .beside => .beside

/-- The names of a path. -/
def namesOf (path : String) : List String :=
  (Text.splitOn '/' path.toList).map String.ofList

/-- The place where a path begins. -/
def Place.start (path : String) : Place :=
  if path.toList.head? = some '/' then .rooted [] else .within []

/-- The names of the file that is always empty, whatever is written to it. -/
def emptyFile : List String := ["dev", "null"]

namespace Folder

/-- What lies under some names. A directory is there if a file lies in it. -/
def under (folder : Folder) (names : List String) : FileEntry :=
  match folder.lookup names with
  | some bytes => .file bytes
  | none =>
    if names.isEmpty || folder.any fun file => names.isPrefixOf file.1 then .directory
    else .missing

/-- What lies at a place. -/
def entry (folder : Folder) : Place → FileEntry
  | .within names => folder.under names
  | .rooted names => under [(emptyFile, [])] names
  | .above => .directory
  | .beside => .missing

/-- What is found where names lead from a place. Each of them is looked up in a directory. -/
def walk (folder : Folder) (place : Place) : List String → FileEntry
  | [] => folder.entry place
  | name :: rest =>
    match folder.entry place with
    | .directory =>
      if nameLimit < name.utf8ByteSize then .unreadable tooLongReason
      else walk folder (place.step name) rest
    | .file _ => .unreadable noDirectoryReason
    | other => other

/-- What is found under a path. -/
def look (folder : Folder) : Files := fun path =>
  if path.isEmpty then .missing
  else
    match pathFailure? path with
    | some reason => .unreadable reason
    | none => folder.walk (.start path) (namesOf path)

/-- The folder after a file was written. Outside the folder this leaves no trace. -/
def write (folder : Folder) (path : String) (bytes : List UInt8) : Folder :=
  match (namesOf path).foldl Place.step (.start path) with
  | .within names => (names, bytes) :: folder.filter fun file => file.1 ≠ names
  | .rooted _ | .above | .beside => folder

/-- The folder of some files that are written under their paths. -/
def ofFiles (files : List (String × List UInt8)) : Folder :=
  files.foldl (fun folder (path, bytes) => folder.write path bytes) []

end Folder

end CompileLog

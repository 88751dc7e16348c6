/-!
# Files

What a program finds under the names of files, apart from the system that keeps them. The
texts of failures are those that the system gives.
-/

namespace CompileLog

/-- What is found under a name. -/
inductive FileEntry where
  /-- Nothing. -/
  | missing
  /-- A directory. -/
  | directory
  /-- Something that cannot be read, for the reason that the system gives. -/
  | unreadable (reason : String)
  /-- A file with its bytes. -/
  | file (bytes : List UInt8)
  deriving DecidableEq, Inhabited

/-- What is found under each name. -/
abbrev Files := String → FileEntry

namespace FileEntry

/-- Said of a name that nothing is found under. -/
def missingReason : String := "No such file or directory (os error 2)"

/-- Said of a directory that is read like a file. -/
def directoryReason : String := "Is a directory (os error 21)"

/-- The bytes of a file, or why there are none. -/
def read : FileEntry → Except String (List UInt8)
  | missing => .error missingReason
  | directory => .error directoryReason
  | unreadable reason => .error reason
  | file bytes => .ok bytes

end FileEntry

/-- Said of a name below something that is no directory. -/
def noDirectoryReason : String := "Not a directory (os error 20)"

/-- Said of a path or a name in it that is longer than the system takes. -/
def tooLongReason : String := "File name too long (os error 36)"

/-- Said of a path that holds the character that ends paths. -/
def nulReason : String := "file name contained an unexpected NUL byte"

/-- The least number of bytes that is too long for a path. -/
def pathLimit : Nat := 4096

/-- The greatest number of bytes of one name. -/
def nameLimit : Nat := 255

/-- Why a path is refused before it is followed, if it is. -/
def pathFailure? (path : String) : Option String :=
  if path.toList.contains '\x00' then some nulReason
  else if path.isEmpty then some FileEntry.missingReason
  else if pathLimit ≤ path.utf8ByteSize then some tooLongReason
  else none

/-- Whether a path ends in the mark of a directory. -/
def asksForDirectory (path : String) : Bool := path.toList.getLast? = some '/'

/-- The path of the directory that a path lies in. -/
def parentOf (path : String) : String :=
  let names := path.toList.reverse.dropWhile fun c => c = '/'
  let before := ((names.dropWhile fun c => c ≠ '/').dropWhile fun c => c = '/').reverse
  if before.isEmpty then (if path.toList.head? = some '/' then "/" else ".")
  else String.ofList before

/-- Why no file can be begun in a directory, if none can. -/
def Files.parentFailure? (files : Files) (path : String) : Option String :=
  match files (parentOf path) with
  | .directory => none
  | .missing => some FileEntry.missingReason
  | .unreadable reason => some reason
  | .file _ => some noDirectoryReason

/-- Why no file can be written under a path, if none can. A path with the mark of a directory is
never that of a file, not even where nothing is found under it. -/
def Files.writeFailure? (files : Files) (path : String) : Option String :=
  match pathFailure? path with
  | some reason => some reason
  | none =>
    if asksForDirectory path then
      some ((files.parentFailure? path).getD FileEntry.directoryReason)
    else
      match files path with
      | .directory => some FileEntry.directoryReason
      | .unreadable reason => some reason
      | .file _ => none
      | .missing => files.parentFailure? path

end CompileLog

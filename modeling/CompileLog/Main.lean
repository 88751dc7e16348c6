import CompileLog.Console.Program

/-!
# The command line

Finds the files that a command names, waits for a log that is still being written, and hands
everything to the program. What the program leaves behind is then printed and written.
-/

namespace CompileLog.Console

/-- What the system says of an error, as the program reports it. -/
def systemReason : IO.Error → String
  | .permissionDenied .. => "Permission denied (os error 13)"
  | .inappropriateType .. => noDirectoryReason
  | .invalidArgument _ _ "name too long" => tooLongReason
  | e => toString e

/-- What is found under a name. -/
def look (path : String) : IO FileEntry := do
  try
    return .file (← IO.FS.readBinFile path).toList
  catch
    | .noFileOrDirectory .. => return .missing
    | .inappropriateType none _ _ => return .directory
    | e => return .unreadable (systemReason e)

/-- What is found under some names; nothing is under all others. -/
def lookAll (names : List String) : IO Files := do
  let found ← names.mapM fun name => return (name, ← look name)
  return fun path => (found.lookup path).getD .missing

/-- Waits until a file has not changed for the time after which its log counts as finished.
Given are its last content and the time since which it is unchanged. -/
partial def settle (path : String) (follow : FollowConfig) (last : FileEntry) (since : Nat) :
    IO Unit := do
  IO.sleep (UInt32.ofNat follow.pollMillis)
  let entry ← look path
  let now ← IO.monoMsNow
  if entry ≠ last then settle path follow entry now
  else
    match follow.idleMillis with
    | some limit => if now - since < limit then settle path follow last since
    | none => settle path follow last since

/-- Waits for the log of a command, if it is still being written. -/
def await (options : Options) (command : Command) : IO Unit := do
  if options.follow then
    let files ← lookAll (command.names options)
    match Config.load files options.config, command.log? with
    | .ok config, some log =>
      match files log with
      | .file content => settle log config.follow (.file content) (← IO.monoMsNow)
      | _ => return
    | _, _ => return

/-- The files that the arguments name. -/
def gather (arguments : List String) : IO Files := do
  match readArguments arguments with
  | .error _ => return fun _ => .missing
  | .ok (options, command) =>
    await options command
    lookAll (command.names options)

/-- What the environment says about the terminal. -/
def readEnvironment : IO Environment :=
  return ⟨(← IO.getEnv "NO_COLOR").isSome, ← IO.getEnv "TERM"⟩

/-- Writes the file that the program leaves behind, and tells what is left if that fails. -/
def deliver (response : Response) : IO Response := do
  match response.written with
  | none => return response
  | some (path, text) =>
    try
      IO.FS.writeBinFile path text.toUTF8
      return response
    catch e =>
      let failure := Failure.ofSaving path (systemReason e)
      return ⟨1, "", response.errors ++ failure.text, none⟩

end CompileLog.Console

open CompileLog.Console in
/-- Runs the program. -/
def main (arguments : List String) : IO UInt32 := do
  let files ← gather arguments
  let response ← deliver (run (← readEnvironment) files arguments)
  IO.eprint response.errors
  IO.print response.output
  return response.exitCode

import PipeCheck.Command.Run

/-!
# The program

Reads the command line, the environment and the document, runs the command and
writes what it leaves behind.
-/

namespace PipeCheck
namespace Main

/-- The number of a system error, which some calls report negated. -/
def systemNumber (code : UInt32) : UInt32 :=
  min code (0 - code)

/-- Why the system refuses to open or read a file. -/
def fileError (error : IO.Error) : FileError :=
  match error with
  | .noFileOrDirectory _ _ _ => .notFound
  | .permissionDenied _ _ _ => .permissionDenied
  | .inappropriateType _ code _ =>
    if systemNumber code = 20 then .notADirectory else .isADirectory
  | .invalidArgument _ code _ =>
    if systemNumber code = 36 then .nameTooLong else .other (toString error)
  | _ => .other (toString error)

/-- The content of a file, or why it cannot be read. -/
def content (path : String) : IO (Except FileError String) := do
  try
    match String.fromUTF8? (← IO.FS.readBinFile path) with
    | some text => return .ok text
    | none => return .error .notText
  catch error =>
    return .error (fileError error)

/-- Whether an environment variable is set. -/
def isSet (name : String) : IO Bool := do
  return (← IO.getEnv name).isSome

/-- Whether colours are written. -/
def coloured : IO Bool := do
  return Command.usesColour (← isSet "NO_COLOR") (← isSet "FORCE_COLOR") (← (← IO.getStdout).isTty)

/-- Writes what a run leaves behind and returns its exit status. -/
def finish (ending : Except WrappedColumn Ending) : IO UInt32 := do
  match ending with
  | .ok ending =>
    (← IO.getStdout).putStr ending.stdout
    (← IO.getStderr).putStr ending.stderr
    return ending.status.toUInt32
  | .error _ =>
    (← IO.getStderr).putStrLn "a label starts in a column that cannot be shown"
    return 101

end Main
end PipeCheck

open PipeCheck in
/-- Runs the program. -/
def main (arguments : List String) : IO UInt32 := do
  let path := (Command.ofArguments arguments).toOption.bind Command.path?
  let content ← match path with
    | some path => Main.content path
    | none => pure (.ok "")
  Main.finish (Command.runArguments arguments (← Main.coloured) fun _ => content)

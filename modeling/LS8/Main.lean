import LS8.Command

/-!
# The program

The outer layer of the command: it gathers what the command can ask about its
surroundings, lets `LS8.Command.run?` answer, and prints the answer.
-/

namespace LS8.Main

/-- The variables that the command looks at. -/
def variableNames : List String :=
  ["LS8_MAX_STEPS", "LS8_TRACE", "LS8_STATS", "LS8_DIAGNOSTICS", "LS8_NO_COLOR", "NO_COLOR",
    "CLICOLOR", "CLICOLOR_FORCE"]

/-- The environment as far as the command looks at it. -/
def environment : IO Environment := do
  let values ← variableNames.filterMapM fun name => do
    return (← IO.getEnv name).map fun value => (name, value.toUTF8)
  return ⟨values⟩

/-- What the operating system said, as the command reports it. Reading a directory
has the error number 21. -/
def readFailure : IO.Error → ReadFailure
  | .noFileOrDirectory _ _ _ => .notFound
  | .inappropriateType _ number _ =>
    -- the number can come with either sign
    if number = 21 ∨ 0 - number = 21 then .isDirectory else .notDirectory
  | .permissionDenied _ _ _ => .other "Permission denied (os error 13)"
  | e => .other (toString e)

/-- Whether anything lies at a path, be it readable or not. -/
def isThere (path : Path) : IO Bool := do
  try
    discard <| IO.FS.realPath path.text
    return true
  catch _ =>
    return false

/-- What lies at a path. -/
def entry (path : Path) : IO (Except ReadFailure Entry) := do
  try
    return .ok (.file (← IO.FS.readBinFile path.text))
  catch e =>
    match readFailure e with
    | .isDirectory => return .ok .directory
    | .other reason =>
      if ← isThere path then return .ok (.locked reason) else return .error (.other reason)
    | failure => return .error failure

/-- The directory that the command is run in. -/
def workingDirectory : IO (Except ReadFailure Path) := do
  try
    return .ok (Path.ofString (toString (← IO.currentDir)))
  catch e =>
    return .error (readFailure e)

/-- The files at the given paths, seen from a working directory. -/
def files (workingDirectory : Except ReadFailure Path) (paths : List Path) : IO FileSystem := do
  let entries ← paths.mapM fun path => return (path.text, ← entry path)
  return ⟨workingDirectory, fun path => (entries.lookup path.text).getD (.error .notFound)⟩

/-- Prints an answer and gives the exit code. -/
def print (answer : Command.Answer) : IO UInt32 := do
  IO.print (answer.outputWith .plain)
  IO.eprint answer.errors
  return answer.code.toUInt32

end LS8.Main

open LS8 in
/-- Runs the command. -/
def main (line : List String) : IO UInt32 := do
  let here ← Main.workingDirectory
  let directories := match here with
    | .ok directory => directory.ancestors
    | .error _ => []
  let settings := directories.map (·.join Settings.fileName)
  let fs ← Main.files here (line.map Path.ofString ++ settings)
  let isTerminal ← (← IO.getStdout).isTty
  match Command.run? fs (← Main.environment) line { isTerminal } with
  | some answer => Main.print answer
  | none => return 1

import ClassFoundry.Command.Basic

/-!
# The program

Reads the arguments and the environment, carries the command out on the files of the system, and
prints the outcome.
-/

namespace ClassFoundry.Command

/-- The variables that the options come from, with their values. -/
def readEnvironment : IO (List (String × String)) := do
  [debugVariable, noVerifyVariable, targetVariable].filterMapM fun name => do
    return (← IO.getEnv name).map fun value => (name, value)

/-- Whether the number of a system error is `n`. Some accesses give it with a minus sign. -/
def isNumber (code n : UInt32) : Bool := code == n || code == -n

/-- The cause of a system error. -/
def fileError : IO.Error → FileError
  | .noFileOrDirectory .. => .notFound
  | .alreadyExists .. => .exists
  | .resourceBusy .. => .busy
  | .inappropriateType _ code _ => if isNumber code 20 then .notDirectory else .isDirectory
  | .invalidArgument _ code details =>
    if isNumber code 36 then .nameTooLong else .other details
  | e => .other e.toString

/-- The answer to an access to the file system. -/
def attempt (x : IO α) : IO (Except FileError α) := do
  try
    return .ok (← x)
  catch e =>
    return .error (fileError e)

/-- Reads a file. -/
def readFile (path : String) : IO Bytes :=
  return (← IO.FS.readBinFile path).toList

/-- Whether a path leads to a directory. -/
def isDirectory (path : String) : IO Bool := do
  try
    (← IO.FS.realPath path).isDir
  catch _ =>
    return false

/-- Creates a directory, unless it is there already. -/
def makeDirectory (path : String) : IO Unit := do
  try
    IO.FS.createDir path
  catch e =>
    unless ← isDirectory path do throw e

/-- Creates a directory, and those that it lies in where they are missing. -/
def makeDirectories (path : String) : IO Unit := do
  try
    makeDirectory path
  catch
    | .noFileOrDirectory .. =>
      (Path.stages path.toList).forM fun stage => makeDirectory (String.ofList stage)
    | e => throw e

/-- Saves a file: the bytes go to a file beside it, which then takes its name, so that no part of
a file is ever seen. -/
def saveFile (path : String) (content : Bytes) : IO Unit := do
  let parent := String.ofList (Path.parentOf path.toList)
  if parent ≠ "" then makeDirectories parent
  let draft := path ++ ".part"
  IO.FS.writeBinFile draft ⟨content.toArray⟩
  try
    IO.FS.rename draft path
  catch e =>
    IO.FS.removeFile draft
    throw e

/-- Carries out a command on the files of the system. -/
def Request.perform : Request → IO Outcome
  | .done outcome => return outcome
  | .read path next => return next (← attempt (readFile path))
  | .save path content next => return next (← attempt (saveFile path content))

end ClassFoundry.Command

open ClassFoundry.Command in
/-- Carries out the command of the arguments and gives its exit code. -/
def main (args : List String) : IO UInt32 := do
  let env ← readEnvironment
  let (request, verbose) := request (env.lookup ·) args
  let outcome ← request.perform
  outcome.warnings.forM IO.eprintln
  if verbose then outcome.remarks.forM IO.eprintln
  IO.print outcome.output
  IO.eprint outcome.errorText
  return outcome.exitCode

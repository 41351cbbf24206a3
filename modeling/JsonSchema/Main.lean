import JsonSchema.Command.Validate

/-!
# The command line

The command that validates one file, run on the files and the environment of the machine. This
module decides nothing: it reads what the arguments name, hands it to the command and prints what
comes of it.
-/

namespace JsonSchema.ValidateCommand

def readSettings : IO (Except NumeralFault Settings) := do
  let found ← Settings.variableNames.mapM fun name => return (name, ← IO.getEnv name)
  return Settings.ofEnvironment fun name => (found.lookup name).join

/-- The paths of the files that the arguments name; arguments that are refused name none. -/
def pathsOf (arguments : List String) : List FilePath :=
  match spec.parse arguments with
  | .error _ => []
  | .ok parsed =>
    match Request.ofArguments {} parsed with
    | .ok request => request.dataPath :: request.schemaPath :: request.references
    | .error _ => []

/-- Adds what a path names to the tree; what is there and cannot be read is not a file. -/
def readEntry (tree : FileTree) (path : FilePath) : IO FileTree := do
  match ← (IO.FS.readBinFile path.text).toBaseIO with
  | .ok content => return tree.writeReached path (.file content.toList)
  | .error (.noFileOrDirectory ..) => return tree
  | .error _ => return tree.writeReached path .special

def readTree (arguments : List String) : IO FileTree := do
  let here := FilePath.ofText (← IO.currentDir).toString
  (pathsOf arguments).foldlM readEntry (.withWorkingDirectory here.parts)

def breakOff (message : String) : IO UInt32 := do
  IO.eprintln message
  return 1

def runProgram (arguments : List String) : IO UInt32 := do
  match ← readSettings with
  | .error fault => breakOff fault.message
  | .ok settings =>
    match outcome settings (← readTree arguments) arguments with
    | .error fault => breakOff fault.message
    | .ok outcome =>
      IO.print outcome.output
      IO.eprint outcome.error
      return outcome.exit.toUInt32

end JsonSchema.ValidateCommand

/-- Validates the data file that the arguments name. -/
def main (arguments : List String) : IO UInt32 :=
  JsonSchema.ValidateCommand.runProgram arguments

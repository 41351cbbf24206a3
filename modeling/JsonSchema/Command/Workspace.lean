import JsonSchema.Batch.Find
import JsonSchema.Command.Run

/-!
# Validating many files

The command applies one schema to all documents that its paths stand for, and counts those that do
not conform.
-/

namespace JsonSchema.WorkspaceCommand

def spec : CommandSpec :=
  { program := "validate_workspace.py"
    options := [⟨["-h", "--help"], .help⟩, OutputFormat.spec]
    positionals := [⟨"schema", false⟩, ⟨"paths", true⟩] }

/-- What the arguments ask for; without paths the working directory is meant. -/
structure Request where
  schemaPath : FilePath
  paths : List FilePath
  format : OutputFormat

def Request.ofArguments (tree : FileTree) (p : ParsedArguments) : Except RunFault Request := do
  let texts := p.positional "paths"
  let paths := (if texts.isEmpty then ["."] else texts).map FilePath.ofText
  return {
    schemaPath := tree.resolve (← p.path "schema")
    paths := paths.map tree.resolve
    format := OutputFormat.ofArguments p
  }

def compileSchema (settings : Settings) (path : FilePath) : RunM CompiledSchema := do
  let complaint := "invalid schema " ++ path.text
  let document ← RunM.load complaint path
  let outcome := runCompile (settings.compileOptions []) document
  RunM.log outcome.log
  match outcome.result with
  | .ok compiled => return compiled
  | .error fault =>
    if fault.isOfSchema then RunM.fail (complaint ++ ": " ++ fault.message)
    else RunM.stop (.compile fault)

/-- The documents that the paths stand for, without the schema. -/
def findFiles (request : Request) : RunM (List FilePath) := do
  let found := Found.ofPaths (← read).tree request.paths
  RunM.log found.log
  let files := found.paths.filter (· != request.schemaPath)
  if files.isEmpty then
    RunM.print .error "No JSON/YAML documents found."
    RunM.exit ExitStatus.failure
  return files

def invalidCount (reports : List Report) : Nat := (reports.filter (!·.valid)).length

def summary (reports : List Report) : Json :=
  .obj [("files", .int reports.length), ("invalid", .int (invalidCount reports)),
    ("results", .arr (reports.map (·.json)))]

def printReports (format : OutputFormat) (reports : List Report) : RunM Unit := do
  match format with
  | .json =>
    RunM.print .output ((summary reports).textIn { indent := some 2, asciiOnly := true } 0)
  | .commands => (reports.flatMap (·.commands)).forM (RunM.print .output)
  | .human =>
    (reports.filter (!·.valid)).forM fun report => do
      RunM.print .output ("\n" ++ report.dataPath.text ++ ":")
      report.violations.lines.forM fun line => RunM.print .output ("  " ++ line)

def run (settings : Settings) (request : Request) : RunM Nat := do
  let schema ← compileSchema settings request.schemaPath
  let files ← findFiles request
  let batch : Batch :=
    { tree := (← read).tree, schema, schemaPath := request.schemaPath
      options := settings.evaluationOptions }
  match batch.run (← get).loader files with
  | .error fault => RunM.stop fault
  | .ok (reports, _) =>
    printReports request.format reports
    let invalid := invalidCount reports
    RunM.print .error
      ("\n" ++ natText reports.length ++ " file(s) checked, " ++ natText invalid ++ " invalid.")
    return ExitStatus.ofValid (invalid == 0)

def outcome (settings : Settings) (tree : FileTree) (arguments : List String) :
    Except RunFault CommandOutcome :=
  spec.outcome arguments fun parsed => do
    (run settings (← Request.ofArguments tree parsed)).outcome tree settings

end JsonSchema.WorkspaceCommand

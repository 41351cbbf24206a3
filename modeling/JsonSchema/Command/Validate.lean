import JsonSchema.Command.Run
import JsonSchema.Uri.Percent

/-!
# Validating one file

The command reads a data file and a schema file, and other schema files that references may name.
-/

namespace JsonSchema.ValidateCommand

def spec : CommandSpec :=
  { program := "schema-validator"
    options := [⟨["-h", "--help"], .help⟩, ⟨["--ref"], .value .any⟩, OutputFormat.spec,
      ⟨["--strict"], .flag⟩, ⟨["--assert-formats"], .flag⟩,
      ⟨["--max-depth"], .value .integer⟩, ⟨["-v", "--verbose"], .flag⟩]
    positionals := [⟨"data", false⟩, ⟨"schema", false⟩] }

structure Request where
  dataPath : FilePath
  schemaPath : FilePath
  references : List FilePath
  format : OutputFormat
  settings : Settings

def maxDepthOf (p : ParsedArguments) : Option Int :=
  (p.value? "--max-depth").bind fun text => (readInteger 10 text).toOption

/-- The settings with what the arguments change. Other formats than text keep the log away from
what they print. -/
def settingsOf (base : Settings) (p : ParsedArguments) (format : OutputFormat) : Settings :=
  { base with
    strict := p.hasFlag "--strict" || base.strict
    assertFormats := p.hasFlag "--assert-formats" || base.assertFormats
    maxDepth := (maxDepthOf p).getD base.maxDepth
    logLevel := if p.hasFlag "--verbose" then "DEBUG" else base.logLevel
    printLevel := if format = .human then base.printLevel else "DEBUG" }

def Request.ofArguments (base : Settings) (p : ParsedArguments) : Except RunFault Request := do
  let format := OutputFormat.ofArguments p
  return {
    dataPath := ← p.path "data"
    schemaPath := ← p.path "schema"
    references := (p.valuesOf "--ref").map FilePath.ofText
    format
    settings := settingsOf base p format
  }

/-! ## Steps -/

/-- The names under which references find a document. -/
def referenceKeys (tree : FileTree) (path : FilePath) (document : Json) : List String :=
  [path.text, path.name, "file://" ++ Uri.percentEncode (tree.resolve path).text] ++
    ((document.member? "$id").bind Json.string?).toList

def register (registry : Registry) (document : Json) (key : String) : RunM Registry := do
  match registry.add document (some key) with
  | .ok (key, registry) =>
    RunM.log [Registry.addedRecord key]
    return registry
  | .error fault => RunM.stop (.compile fault)

def registerFile (registry : Registry) (path : FilePath) : RunM Registry := do
  let document ← RunM.load ("cannot load referenced schema " ++ path.text) path
  (referenceKeys (← read).tree path document).foldlM (register · document ·) registry

/-- The pointer of a place in the root document. -/
def rootPointer? (location : String) : Option String :=
  match location.toList with
  | '#' :: rest => some (String.ofList rest)
  | _ => none

def schemaComplaint (path : FilePath) (map : SourceMap) (fault : CompileFault) : String :=
  let place := match fault with
    | .tooDeep _ _ => ""
    | _ =>
      match rootPointer? fault.location with
      | some pointer => (map.locate (some pointer) (some path)).text
      | none => ""
  "invalid schema " ++ path.text ++ ": " ++ fault.message ++ place

def compileSchema (request : Request) (registry : Registry) (schema : LocatedDocument) :
    RunM CompiledSchema := do
  let outcome := runCompile (request.settings.compileOptions registry) schema.document
  RunM.log outcome.log
  match outcome.result with
  | .ok compiled => return compiled
  | .error fault =>
    if fault.isOfSchema then RunM.fail (schemaComplaint request.schemaPath schema.map fault)
    else RunM.stop (.compile fault)

def evaluationLogger : String := "schema_validator.evaluator.validator"

def evaluate (request : Request) (compiled : CompiledSchema) (data : Json) : RunM Violations := do
  match compiled.validateShown request.settings.evaluationOptions data with
  | .ok violations =>
    RunM.debug evaluationLogger
      ("Validation finished with " ++ natText violations.length ++ " error(s)")
    return violations
  | .error fault =>
    if fault.isOfDepth then
      RunM.fail ("cannot validate " ++ request.dataPath.text ++ ": " ++ fault.message)
    else RunM.stop (.evaluate fault)

def printReport (request : Request) (report : Report) : RunM Unit := do
  match request.format with
  | .json => RunM.print .output (report.json.textIn { indent := some 2 } 0)
  | .commands => report.commands.forM (RunM.print .output)
  | .human =>
    let about (verdict : String) := report.dataPath.text ++ verdict ++ report.schemaPath.text
    if report.valid then RunM.print .output (about " conforms to ")
    else
      RunM.print .error (about " does not conform to " ++ ":")
      report.violations.lines.forM fun line => RunM.print .error ("  " ++ line)

def commandLogger : String := "schema_validator.cli.run_validate"

def run (request : Request) : RunM Nat := do
  let dataText := request.dataPath.text
  let schemaText := request.schemaPath.text
  RunM.debug commandLogger ("Validating " ++ dataText ++ " against " ++ schemaText)
  let data ← RunM.loadLocated ("cannot load data " ++ dataText) request.dataPath
  let schema ← RunM.loadLocated ("cannot load schema " ++ schemaText) request.schemaPath
  let registry ← request.references.foldlM registerFile []
  let compiled ← compileSchema request registry schema
  let violations ← evaluate request compiled data.document
  let report : Report :=
    { dataPath := request.dataPath
      schemaPath := request.schemaPath
      violations
      sourceMap := data.map
      remarks := compiled.warnings.map fun message => ⟨message, none⟩ }
  printReport request report
  return ExitStatus.ofValid report.valid

def outcome (base : Settings) (tree : FileTree) (arguments : List String) :
    Except RunFault CommandOutcome :=
  spec.outcome arguments fun parsed => do
    let request ← Request.ofArguments base parsed
    (run request).outcome tree request.settings

end JsonSchema.ValidateCommand

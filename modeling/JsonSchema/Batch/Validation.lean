import JsonSchema.Document.Loader
import JsonSchema.Evaluation.Shown
import JsonSchema.Report.Basic
import JsonSchema.Schema.Fault

/-!
# Validating many files

One schema is applied to a row of files. A file that cannot be read does not stop the others: its
report holds one violation at the root.
-/

namespace JsonSchema

/-- What stops a run: a fault that belongs to no file and no schema. -/
inductive RunFault where
  | load (fault : LoadFault)
  | compile (fault : CompileFault)
  | evaluate (fault : EvaluationFault)
  /-- An argument that is to name a file is empty: a second mark for the end of the options took
  its place. -/
  | noPath (argument : String)

def RunFault.message : RunFault → String
  | .load fault => fault.message
  | .compile fault => fault.message
  | .evaluate fault => fault.message
  | .noPath argument => "no path for " ++ argument

def loadKeyword : String := "load"

def loadViolation (message : String) : Violation := ⟨[], loadKeyword, message, ""⟩

/-- The outcome for one file, and the places of its values. -/
structure FileOutcome where
  violations : Violations
  map : SourceMap

namespace FileOutcome

def unreadable (message : String) : FileOutcome := ⟨[loadViolation message], []⟩

def ofDocument (schema : CompiledSchema) (options : EvaluationOptions) :
    Except LoadFault LocatedDocument → Except RunFault FileOutcome
  | .error fault =>
    if fault.isOfInput then .ok (unreadable fault.message) else .error (.load fault)
  | .ok located =>
    match schema.validateShown options located.document with
    | .ok violations => .ok ⟨violations, located.map⟩
    | .error fault =>
      if fault.isOfDepth then .ok (unreadable fault.message) else .error (.evaluate fault)

end FileOutcome

structure Batch where
  tree : FileTree
  schema : CompiledSchema
  schemaPath : FilePath
  options : EvaluationOptions

namespace Batch

def report (batch : Batch) (path : FilePath) (outcome : FileOutcome) : Report :=
  { dataPath := path
    schemaPath := batch.schemaPath
    violations := outcome.violations
    sourceMap := outcome.map
    remarks := batch.schema.warnings.map fun message => ⟨message, none⟩ }

/-- The reports on the files, in their order, and the loader behind them. -/
def run (batch : Batch) (loader : DocumentLoader) :
    List FilePath → Except RunFault (List Report × DocumentLoader)
  | [] => .ok ([], loader)
  | path :: rest => do
    let loaded := loader.loadLocated batch.tree path
    let outcome ← FileOutcome.ofDocument batch.schema batch.options loaded.result
    let (reports, loader) ← run batch loaded.loader rest
    return (batch.report path outcome :: reports, loader)

end Batch

end JsonSchema

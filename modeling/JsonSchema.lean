import JsonSchema.Number.Multiple
import JsonSchema.Uri.Join
import JsonSchema.Pointer.Resolve
import JsonSchema.Settings
import JsonSchema.Log
import JsonSchema.Report.Basic
import JsonSchema.Schema.Draft
import JsonSchema.Text.Word
import JsonSchema.Text.Case
import JsonSchema.Batch.Find
import JsonSchema.Main
import JsonSchema.Command.Workspace
import JsonSchema.Evaluation.Basic
import JsonSchema.Schema.Compile
import JsonSchema.Proofs.Evaluation.Meaning
import JsonSchema.Proofs.Evaluation.Checks
import JsonSchema.Proofs.Evaluation.Verdict
import JsonSchema.Proofs.Interpreter.Basic
import JsonSchema.Proofs.Interpreter.Children
import JsonSchema.Proofs.Interpreter.Objects
import JsonSchema.Proofs.Interpreter.Simulation
import JsonSchema.Proofs.Evaluation.Safety
import JsonSchema.Proofs.Evaluation.Equality
import JsonSchema.Proofs.Schema.WellFormed
import JsonSchema.Proofs.Evaluation.Dependencies
import JsonSchema.Proofs.Schema.Order
import JsonSchema.Proofs.Document.Session
import JsonSchema.Proofs.Batch.Isolation
import JsonSchema.Proofs.Schema.Queue
import JsonSchema.Proofs.Schema.Work
import JsonSchema.Proofs.Yaml.Expansion
import JsonSchema.Proofs.Yaml.Merging
import JsonSchema.Proofs.Yaml.Reading
import JsonSchema.Proofs.Yaml.Rounds
import JsonSchema.Proofs.Yaml.Documents
import JsonSchema.Proofs.Evaluation.Depth
import JsonSchema.Proofs.Evaluation.SchemaPath
import JsonSchema.Proofs.Evaluation.Order
import JsonSchema.Proofs.Evaluation.Shown
import JsonSchema.Proofs.Schema.Inert
import JsonSchema.Proofs.Schema.Registered
import JsonSchema.Proofs.Schema.Laxer
import JsonSchema.Proofs.Schema.Escape
import JsonSchema.Proofs.Yaml.Located
import JsonSchema.Proofs.Yaml.JsonText
import JsonSchema.Proofs.Pointer.Format
import JsonSchema.Proofs.Report.Order
import JsonSchema.Proofs.Report.Lines
import JsonSchema.Proofs.Schema.Drafts
import JsonSchema.Proofs.Json.Canonical
import JsonSchema.Proofs.Evaluation.Complete
import JsonSchema.Proofs.Number.Tolerance
import JsonSchema.Proofs.Pointer.Index
import JsonSchema.Proofs.Relation
import JsonSchema.Proofs.Evaluation.Follow
import JsonSchema.Proofs.Evaluation.Budget
import JsonSchema.Proofs.Evaluation.Circular
import JsonSchema.Proofs.Number.Numeral
import JsonSchema.Proofs.Text.Split
import JsonSchema.Proofs.Yaml.Aliases
import JsonSchema.Proofs.Yaml.Implied
import JsonSchema.Proofs.Yaml.Scanning
import JsonSchema.Proofs.Yaml.Composing
import JsonSchema.Proofs.Yaml.Misread
import JsonSchema.Proofs.Format.Moment
import JsonSchema.Proofs.Files.Tree
import JsonSchema.Proofs.Batch.Find
import JsonSchema.Proofs.Schema.Blame
import JsonSchema.Proofs.Report.RoundTrip
import JsonSchema.Proofs.Report.Nearest
import JsonSchema.Proofs.Evaluation.Below

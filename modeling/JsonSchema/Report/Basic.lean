import JsonSchema.Json.Text
import JsonSchema.Report.Source
import JsonSchema.Report.Violation

/-!
# Reports

A report is the outcome for one data file against one schema file. It is shown as lines for
people, as a JSON document, or as commands for a build service.
-/

namespace JsonSchema

/-- A remark that does not affect the outcome. -/
structure Remark where
  message : String
  pointer : Option String
deriving DecidableEq, Repr

structure Report where
  dataPath : FilePath
  schemaPath : FilePath
  violations : Violations
  sourceMap : SourceMap
  remarks : List Remark
deriving Repr

/-! ## Lines -/

/-- What stands for the empty pointer in a line. -/
def rootLabel : String := "<root>"

def Violation.line (v : Violation) : String :=
  let place := if v.pointer == "" then rootLabel else v.pointer
  place ++ ": " ++ v.keyword ++ " — " ++ v.message

def Violations.lines (violations : Violations) : List String := violations.sorted.map (·.line)

/-! ## JSON -/

def Segment.json : Segment → Json
  | .name text => .str text
  | .index i => .int i

def Violation.members (v : Violation) : Members Json :=
  [("path", .arr (v.path.map (·.json))), ("pointer", .str v.pointer), ("keyword", .str v.keyword),
    ("message", .str v.message), ("schemaPath", .str v.schemaPath)]

def Violation.json (v : Violation) : Json := .obj v.members

def Violations.json (violations : Violations) : Json :=
  .obj [("valid", .bool violations.valid), ("errors", .arr (violations.sorted.map (·.json)))]

def Remark.json (remark : Remark) : Json :=
  .obj (("message", .str remark.message) ::
    (remark.pointer.map fun pointer => ("pointer", Json.str pointer)).toList)

namespace Report

def valid (report : Report) : Bool := report.violations.valid

def locate (report : Report) (v : Violation) : SourceLocation :=
  report.sourceMap.locate (some v.pointer) (some report.dataPath)

def optionalNumber : Option Int → Json
  | some n => .int n
  | none => .null

def placeMembers (report : Report) (v : Violation) : Members Json :=
  let location := report.locate v
  match location.line with
  | some line => [("line", .int line), ("column", optionalNumber location.column)]
  | none => []

def json (report : Report) : Json :=
  .obj [("data", .str report.dataPath.text), ("schema", .str report.schemaPath.text),
    ("valid", .bool report.valid),
    ("errors", .arr (report.violations.sorted.map fun v =>
      .obj (v.members ++ report.placeMembers v))),
    ("warnings", .arr (report.remarks.map (·.json)))]

/-! ## Commands for a build service -/

def remarkCommand (report : Report) (remark : Remark) : String :=
  "::warning file=" ++ report.schemaPath.text ++ "::" ++ remark.message

/-- An unknown line counts as the first one. -/
def violationCommand (report : Report) (v : Violation) : String :=
  let line := match (report.locate v).line with
    | some line => if line = 0 then 1 else line
    | none => 1
  "::error file=" ++ report.dataPath.text ++ ",line=" ++ intText line ++ "::" ++ v.line

def commands (report : Report) : List String :=
  report.remarks.map report.remarkCommand ++
    report.violations.sorted.map report.violationCommand

end Report

end JsonSchema

import JsonSchema.Json.Literal
import JsonSchema.Pointer.Resolve
import JsonSchema.Regex.Fault
import JsonSchema.Uri.Basic

/-!
# Why a schema cannot be compiled
-/

namespace JsonSchema

inductive KeywordProblem where
  | notASchema
  | notANumber
  | notACount
  | notABoolean
  | notAnObject
  | notStrings
  | notSchemas
  | notAString
  | notAnArray
  | notAnAnchor
  | notTypeNames
  | unknownTypes (names : List Json)
  | notAPattern
  | badPattern (source : String) (fault : Regex.Fault)
  | booleanBound
  | notPositive
  | arrayItems
  | arrayItemsTwice

def KeywordProblem.reason : KeywordProblem → String
  | .notASchema => "subschema must be an object or boolean"
  | .notANumber => "expected a number"
  | .notACount => "expected a non-negative integer"
  | .notABoolean => "expected a boolean"
  | .notAnObject => "expected an object"
  | .notStrings => "expected an array of strings"
  | .notSchemas => "expected a non-empty array of schemas"
  | .notAString => "expected a string"
  | .notAnArray => "expected an array"
  | .notAnAnchor => "expected a plain-name anchor"
  | .notTypeNames => "expected a type name or an array of type names"
  | .unknownTypes names =>
    "unknown type(s) " ++ (Json.arr names).literal ++ "; expected one of " ++
      (Json.arr (Json.Kind.all.map fun kind => .str kind.name)).literal
  | .notAPattern => "expected a regular expression string"
  | .badPattern source fault =>
    "invalid regular expression '" ++ source ++ "': " ++ fault.message source
  | .booleanBound => "boolean form is only valid in draft-04"
  | .notPositive => "expected a number greater than 0"
  | .arrayItems => "array form is replaced by 'prefixItems' in draft 2020-12"
  | .arrayItemsTwice => "array form cannot be combined with 'prefixItems'"

/-- Whether the reason can be written out. -/
def KeywordProblem.hasText : KeywordProblem → Bool
  | .unknownTypes names => Json.itemsHaveText names
  | _ => true

def depthMessage (maxDepth : Int) (path : String) : String :=
  "Maximum depth " ++ intText maxDepth ++ " exceeded at '" ++ (if path == "" then "#" else path) ++
    "'"

inductive CompileFault where
  | rootNotASchema (sort : String) (location : String)
  | badKeyword (location keyword : String) (problem : KeywordProblem)
  | unresolved (reference : String) (location : String)
  | unsupportedDraft (declared : String) (location : String)
  /-- A document to register has neither a URI nor an identifier. -/
  | noKey
  | tooDeep (maxDepth : Int) (location : String)
  /-- The last four are faults of a part that stop the compilation without being its own. -/
  | uri (fault : Uri.Fault)
  | pointer (fault : PointerFault)
  | pattern (source : String) (fault : Regex.Fault)
  /-- A message shows an integer that is too long for a text. -/
  | noText

namespace CompileFault

def message : CompileFault → String
  | .rootNotASchema sort _ => "Schema root must be an object or boolean, got " ++ sort
  | .badKeyword location keyword problem =>
    "Invalid value for keyword '" ++ keyword ++ "' at '" ++
      (if location == "" then "#" else location) ++ "': " ++ problem.reason
  | .unresolved reference _ => "Unresolved reference '" ++ reference ++ "'"
  | .unsupportedDraft declared _ => "Unsupported schema version '" ++ declared ++ "'"
  | .noKey => "Registered schema needs a URI or an '$id'"
  | .tooDeep maxDepth location => depthMessage maxDepth location
  | .uri fault => fault.message
  | .pointer fault => fault.message
  | .pattern source fault => fault.message source
  | .noText => noTextMessage

/-- Whether the schema is at fault, and not the text of a part of it or what is registered. -/
def isOfSchema : CompileFault → Bool
  | .uri _ | .pointer _ | .pattern _ _ | .noText => false
  | _ => true

def location : CompileFault → String
  | .rootNotASchema _ location | .badKeyword location _ _ | .unresolved _ location
  | .unsupportedDraft _ location | .tooDeep _ location => location
  | .noKey | .uri _ | .pointer _ | .pattern _ _ | .noText => ""

end CompileFault

end JsonSchema

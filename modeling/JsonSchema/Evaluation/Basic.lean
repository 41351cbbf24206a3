import JsonSchema.Evaluation.Assertion
import JsonSchema.Report.Violation
import JsonSchema.Schema.Keyword

/-!
# Evaluation

A node of a compiled schema is applied to a value. All keywords are checked and all violations are
collected, in a fixed order. A budget limits how deep nodes may apply each other.
-/

namespace JsonSchema

structure EvaluationOptions where
  maxDepth : Int
  assertFormats : Bool
deriving DecidableEq, Repr, Inhabited

inductive EvaluationFault where
  | tooDeep (maxDepth : Int) (pointer : String)
  /-- A string is to be an expression and is at fault beyond its syntax. -/
  | pattern (source : String) (fault : Regex.Fault)
  /-- A message is to show an integer that is too long to be written out. -/
  | noText
deriving DecidableEq, Repr

def EvaluationFault.message : EvaluationFault → String
  | .tooDeep maxDepth pointer => depthMessage maxDepth pointer
  | .pattern source fault => fault.message source
  | .noText => noTextMessage

/-- Whether the nesting is at fault, and not a string or an integer. -/
def EvaluationFault.isOfDepth : EvaluationFault → Bool
  | .tooDeep _ _ => true
  | .pattern _ _ | .noText => false

abbrev Evaluated (α : Type) := Except EvaluationFault α

/-- Applies the node of an index to the value at a path. -/
abbrev Apply := NodeId → Json → Path → Evaluated Violations

namespace SchemaNode

def violation (node : SchemaNode) (path : Path) (keyword message : String) : Violation :=
  { path, keyword, message, schemaPath := node.keywordPath keyword }

/-! ## Applying other nodes -/

/-- How a keyword applies another node; a schema that is false is a violation of the keyword. -/
structure Applicator where
  keyword : String
  message : String

def Applicator.plain (keyword : String) : Applicator :=
  ⟨keyword, "value is not allowed by '" ++ keyword ++ "'"⟩

/-- Applies another node in the name of a keyword. -/
def descend (node : SchemaNode) (schema : CompiledSchema) (apply : Apply)
    (applicator : Applicator) (child : NodeId) (value : Json) (path : Path) :
    Evaluated Violations :=
  if ((schema.node? child).bind (·.boolean)) == some false then
    .ok [node.violation path applicator.keyword applicator.message]
  else apply child value path

/-- The violations of all elements of a list, one after the other. -/
def collect {α : Type} (check : α → Evaluated Violations) : List α → Evaluated Violations
  | [] => .ok []
  | a :: rest => do
    let first ← check a
    let others ← collect check rest
    return first ++ others

/-! ## Arrays -/

/-- The node that a keyword gives for the item at an index. -/
def itemViolations (node : SchemaNode) (schema : CompiledSchema) (apply : Apply) (path : Path)
    (index : Nat) (item : Json) : Evaluated Violations :=
  let itemPath := path ++ [.index index]
  match node.array.firstItems[index]?, node.array.items with
  | some child, _ =>
    node.descend schema apply (.plain node.array.firstItemsKeyword) child item itemPath
  | none, some child =>
    let message := "additional item at index " ++ natText index ++ " is not allowed"
    node.descend schema apply ⟨node.array.itemsKeyword, message⟩ child item itemPath
  | none, none => .ok []

/-- The number of items that match a node; `index` is the index of the first item. -/
def countMatches (apply : Apply) (child : NodeId) (path : Path) :
    (index : Nat) → List Json → Evaluated Nat
  | _, [] => .ok 0
  | index, item :: rest => do
    let violations ← apply child item (path ++ [.index index])
    let others ← countMatches apply child path (index + 1) rest
    return (if violations.isEmpty then 1 else 0) + others

def containsFailures (keywords : ArrayKeywords) (found : Nat) : List Failure :=
  let items := natText found ++ " item(s) match the 'contains' schema, "
  (match keywords.minContains with
    | none =>
      failIf (decide (found < 1)) "contains" "no item matches the 'contains' schema"
    | some least =>
      failIf (decide (found < least)) "minContains" (items ++ "fewer than " ++ natText least)) ++
    failLimit keywords.maxContains (fun most => decide (most < found)) "maxContains"
      fun most => items ++ "more than " ++ natText most

def containsViolations (node : SchemaNode) (apply : Apply) (path : Path) (items : List Json) :
    Evaluated Violations :=
  match node.array.contains with
  | none => .ok []
  | some child => do
    let found ← countMatches apply child path 0 items
    return (containsFailures node.array found).map fun failure =>
      node.violation path failure.keyword failure.message

def arrayViolations (node : SchemaNode) (schema : CompiledSchema) (apply : Apply) (path : Path)
    (items : List Json) : Evaluated Violations := do
  let inside ← collect (fun (item, index) => node.itemViolations schema apply path index item)
    items.zipIdx
  let contained ← node.containsViolations apply path items
  return inside ++ contained

/-! ## Objects -/

def patternViolations (node : SchemaNode) (schema : CompiledSchema) (apply : Apply)
    (matching : List PatternProperty) (value : Json) (path : Path) : Evaluated Violations :=
  collect (fun entry =>
    node.descend schema apply (.plain "patternProperties") entry.node value path) matching

def namedViolations (node : SchemaNode) (schema : CompiledSchema) (apply : Apply) (name : String)
    (value : Json) (path : Path) : Evaluated Violations :=
  match node.object.properties.get? name with
  | some child => node.descend schema apply (.plain "properties") child value path
  | none => .ok []

/-- The violations of a property that is covered or not by a schema for its name. -/
def additionalViolations (node : SchemaNode) (schema : CompiledSchema) (apply : Apply)
    (covered : Bool) (name : String) (value : Json) (path : Path) : Evaluated Violations :=
  match covered, node.object.additionalProperties with
  | false, some child =>
    let message := "additional property '" ++ name ++ "' is not allowed"
    node.descend schema apply ⟨"additionalProperties", message⟩ child value path
  | _, _ => .ok []

def propertyViolations (node : SchemaNode) (schema : CompiledSchema) (apply : Apply) (path : Path)
    (name : String) (value : Json) : Evaluated Violations := do
  let valuePath := path ++ [.name name]
  let matching := node.object.patternProperties.filter (·.pattern.isIn name)
  let covered := node.object.properties.has name || !matching.isEmpty
  let named ← node.namedViolations schema apply name value valuePath
  let matched ← node.patternViolations schema apply matching value valuePath
  let additional ← node.additionalViolations schema apply covered name value valuePath
  return named ++ matched ++ additional

def nameViolations (node : SchemaNode) (schema : CompiledSchema) (apply : Apply) (path : Path)
    (name : String) : Evaluated Violations :=
  match node.object.propertyNames with
  | none => .ok []
  | some child =>
    let message := "property name '" ++ name ++ "' is not allowed"
    node.descend schema apply ⟨"propertyNames", message⟩ child (.str name) path

def dependentViolations (node : SchemaNode) (schema : CompiledSchema) (apply : Apply)
    (path : Path) (members : Members Json) (trigger : String) (child : NodeId) :
    Evaluated Violations :=
  if members.has trigger then
    let message := "property '" ++ trigger ++ "' is not allowed"
    node.descend schema apply ⟨"dependentSchemas", message⟩ child (.obj members) path
  else .ok []

def objectViolations (node : SchemaNode) (schema : CompiledSchema) (apply : Apply) (path : Path)
    (members : Members Json) : Evaluated Violations := do
  let inside ← collect
    (fun (name, value) => node.propertyViolations schema apply path name value) members
  let names ← collect (node.nameViolations schema apply path) members.names
  let dependent ← collect
    (fun (trigger, child) => node.dependentViolations schema apply path members trigger child)
    node.object.dependentSchemas
  return inside ++ names ++ dependent

/-! ## Compositions -/

/-- The shortest list of violations; of several the first one. -/
def closest : List Violations → Violations
  | [] => []
  | first :: rest =>
    rest.foldl (fun best next => if next.length < best.length then next else best) first

/-- The violations of each branch, up to the first branch that has none; then there are none. -/
def failedBranches (apply : Apply) (value : Json) (path : Path) :
    List NodeId → Evaluated (List Violations)
  | [] => .ok []
  | branch :: rest => do
    let violations ← apply branch value path
    if violations.isEmpty then return []
    -- A branch further on may pass, and then this one does not count.
    match rest with
    | [] => return [violations]
    | _ =>
      let others ← failedBranches apply value path rest
      return if others.isEmpty then [] else violations :: others

def anyOfViolations (node : SchemaNode) (apply : Apply) (value : Json) (path : Path) :
    Evaluated Violations := do
  let failed ← failedBranches apply value path node.composition.anyOf
  if failed.isEmpty then return []
  let count := natText node.composition.anyOf.length
  let message := "value does not match any of the " ++ count ++ " subschemas"
  return node.violation path "anyOf" message :: closest failed

def branchOutcomes (apply : Apply) (value : Json) (path : Path) :
    List NodeId → Evaluated (List Violations)
  | [] => .ok []
  | branch :: rest => do
    let violations ← apply branch value path
    let others ← branchOutcomes apply value path rest
    return violations :: others

def matchedIndices (outcomes : List Violations) : List Nat :=
  (outcomes.zipIdx.filter fun (violations, _) => violations.isEmpty).map (·.2)

def oneOfViolations (node : SchemaNode) (apply : Apply) (value : Json) (path : Path) :
    Evaluated Violations := do
  let outcomes ← branchOutcomes apply value path node.composition.oneOf
  let found := matchedIndices outcomes
  if outcomes.isEmpty || found.length == 1 then return []
  let which :=
    if found.isEmpty then "" else " (indices [" ++ ", ".intercalate (found.map natText) ++ "])"
  let message := "value matches " ++ natText found.length ++ " of " ++ natText outcomes.length ++
    " subschemas" ++ which ++ ", expected exactly one"
  return node.violation path "oneOf" message :: (if found.isEmpty then closest outcomes else [])

def notViolations (node : SchemaNode) (apply : Apply) (value : Json) (path : Path) :
    Evaluated Violations :=
  match node.composition.negated with
  | none => .ok []
  | some child => do
    let violations ← apply child value path
    return if violations.isEmpty then
        [node.violation path "not" "value must not match the 'not' schema"]
      else []

/-- Of the condition only its outcome counts: it chooses between the two other schemas. -/
def conditionViolations (node : SchemaNode) (schema : CompiledSchema) (apply : Apply)
    (value : Json) (path : Path) : Evaluated Violations :=
  match node.composition.condition with
  | none => .ok []
  | some child => do
    let violations ← apply child value path
    let (keyword, chosen) :=
      if violations.isEmpty then ("then", node.composition.consequent)
      else ("else", node.composition.alternative)
    match chosen with
    | some branch => node.descend schema apply (.plain keyword) branch value path
    | none => return []

def compositionViolations (node : SchemaNode) (schema : CompiledSchema) (apply : Apply)
    (value : Json) (path : Path) : Evaluated Violations := do
  let all ← collect (fun child => node.descend schema apply (.plain "allOf") child value path)
    node.composition.allOf
  let any ← node.anyOfViolations apply value path
  let one ← node.oneOfViolations apply value path
  let negated ← node.notViolations apply value path
  let conditional ← node.conditionViolations schema apply value path
  return all ++ any ++ one ++ negated ++ conditional

/-! ## Nodes -/

def ownViolations (node : SchemaNode) (options : EvaluationOptions) (value : Json) (path : Path) :
    Evaluated Violations := do
  let formatFailures ← (node.formatFailures options.assertFormats value).mapError
    (EvaluationFault.pattern (value.string?.getD "") ·)
  return (node.failures value ++ formatFailures).map fun failure =>
    node.violation path failure.keyword failure.message

def innerViolations (node : SchemaNode) (schema : CompiledSchema) (apply : Apply) (value : Json)
    (path : Path) : Evaluated Violations :=
  match value with
  | .arr items => node.arrayViolations schema apply path items
  | .obj members => node.objectViolations schema apply path members
  | _ => .ok []

def refViolations (node : SchemaNode) (apply : Apply) (value : Json) (path : Path) :
    Evaluated Violations :=
  match node.refTarget with
  | some target => apply target value path
  | none => .ok []

/-- The violations of a node, where `apply` applies other nodes. -/
def violations (node : SchemaNode) (schema : CompiledSchema) (options : EvaluationOptions)
    (apply : Apply) (value : Json) (path : Path) : Evaluated Violations :=
  match node.boolean with
  | some true => .ok []
  | some false => .ok [⟨path, "false", "no value is allowed by this schema", node.location⟩]
  | none => do
    let referred ← node.refViolations apply value path
    let own ← node.ownViolations options value path
    let inner ← node.innerViolations schema apply value path
    let composed ← node.compositionViolations schema apply value path
    return referred ++ own ++ inner ++ composed

end SchemaNode

namespace CompiledSchema

/-- The violations of a node, which may apply other nodes `budget - 1` levels deep. -/
def evaluate (schema : CompiledSchema) (options : EvaluationOptions) : (budget : Nat) → Apply
  | 0 => fun _ _ path => .error (.tooDeep options.maxDepth path.pointer)
  | budget + 1 => fun id value path =>
    match schema.node? id with
    | some node => node.violations schema options (schema.evaluate options budget) value path
    | none => .ok []

/-- All violations of an instance, in the order of evaluation. -/
def validate (schema : CompiledSchema) (options : EvaluationOptions) (instance_ : Json) :
    Evaluated Violations :=
  schema.evaluate options (options.maxDepth + 1).toNat rootId instance_ []

end CompiledSchema

end JsonSchema

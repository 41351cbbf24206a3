import JsonSchema.Evaluation.Basic
import JsonSchema.Number.Numeral

/-!
# Evaluations that are written out

A value with an integer that has no text is compared as any other one is. An evaluation comes to
nothing as soon as a message shows such an integer, or a check reads its digits.
-/

namespace JsonSchema

namespace SchemaNode

/-! ## What a message shows -/

/-- The keywords whose messages show the value that fails, when it may be a number. -/
def showingKeywords : List String :=
  ["type", "enum", "const", "minimum", "maximum", "exclusiveMinimum", "exclusiveMaximum",
    "multipleOf"]

/-- The values of the keywords that show them in their messages. -/
def limits (node : SchemaNode) : List (String × List Json) :=
  let number (limit : Option Number) := limit.toList.map Json.num
  let count (limit : Option Nat) := limit.toList.map fun n : Nat => Json.int n
  [("enum", node.value.options.getD []), ("const", node.value.const.toList),
    ("minimum", number node.number.minimum), ("maximum", number node.number.maximum),
    ("exclusiveMinimum", number node.number.exclusiveMinimum),
    ("exclusiveMaximum", number node.number.exclusiveMaximum),
    ("multipleOf", number node.number.multipleOf),
    ("minLength", count node.string.minLength), ("maxLength", count node.string.maxLength),
    ("minItems", count node.array.minItems), ("maxItems", count node.array.maxItems),
    ("minContains", count node.array.minContains), ("maxContains", count node.array.maxContains),
    ("minProperties", count node.object.minProperties),
    ("maxProperties", count node.object.maxProperties)]

/-- The values that the message of a keyword shows when a value fails it. -/
def shown (node : SchemaNode) (value : Json) (keyword : String) : List Json :=
  (if showingKeywords.contains keyword then [value] else []) ++
    (node.limits.lookup keyword).getD []

/-- Writes out the messages of the keywords that a value fails. -/
def writeOut (node : SchemaNode) (value : Json) (keywords : List String) : Evaluated Unit :=
  if keywords.all fun keyword => (node.shown value keyword).all Json.hasText then .ok ()
  else .error .noText

theorem writeOut_cases (node : SchemaNode) (value : Json) (keywords : List String) :
    node.writeOut value keywords = .ok () ∨ node.writeOut value keywords = .error .noText := by
  unfold writeOut
  split
  · exact .inl rfl
  · exact .inr rfl

/-- Whether `multipleOf` reads the digits of an integer that has no text. -/
def lacksDigits (node : SchemaNode) (value : Json) : Bool :=
  match value, node.number.multipleOf with
  | .num n, some step => (n.isMultipleOf? step).isNone
  | _, _ => false

/-- Writes out the messages about the value alone. -/
def writeOwn (node : SchemaNode) (value : Json) : Evaluated Unit :=
  if node.lacksDigits value then .error .noText
  else node.writeOut value ((node.failures value).map (·.keyword))

theorem writeOwn_cases (node : SchemaNode) (value : Json) :
    node.writeOwn value = .ok () ∨ node.writeOwn value = .error .noText := by
  unfold writeOwn
  split
  · exact .inr rfl
  · exact node.writeOut_cases value _

/-! ## Nodes -/

def arrayShown (node : SchemaNode) (schema : CompiledSchema) (apply : Apply) (path : Path)
    (items : List Json) : Evaluated Violations := do
  let inside ← collect (fun (item, index) => node.itemViolations schema apply path index item)
    items.zipIdx
  let contained ← node.containsViolations apply path items
  node.writeOut (.arr items) (contained.map (·.keyword))
  return inside ++ contained

def innerShown (node : SchemaNode) (schema : CompiledSchema) (apply : Apply) (value : Json)
    (path : Path) : Evaluated Violations :=
  match value with
  | .arr items => node.arrayShown schema apply path items
  | .obj members => node.objectViolations schema apply path members
  | _ => .ok []

def shownViolations (node : SchemaNode) (schema : CompiledSchema) (options : EvaluationOptions)
    (apply : Apply) (value : Json) (path : Path) : Evaluated Violations :=
  match node.boolean with
  | some _ => node.violations schema options apply value path
  | none => do
    let referred ← node.refViolations apply value path
    node.writeOwn value
    let own ← node.ownViolations options value path
    let inner ← node.innerShown schema apply value path
    let composed ← node.compositionViolations schema apply value path
    return referred ++ own ++ inner ++ composed

end SchemaNode

namespace CompiledSchema

/-- As `evaluate`, with every message written out. -/
def evaluateShown (schema : CompiledSchema) (options : EvaluationOptions) : (budget : Nat) → Apply
  | 0 => fun _ _ path => .error (.tooDeep options.maxDepth path.pointer)
  | budget + 1 => fun id value path =>
    match schema.node? id with
    | some node =>
      node.shownViolations schema options (schema.evaluateShown options budget) value path
    | none => .ok []

/-- All violations of an instance, in the order of evaluation and with their messages. -/
def validateShown (schema : CompiledSchema) (options : EvaluationOptions) (instance_ : Json) :
    Evaluated Violations :=
  schema.evaluateShown options (options.maxDepth + 1).toNat rootId instance_ []

end CompiledSchema

end JsonSchema

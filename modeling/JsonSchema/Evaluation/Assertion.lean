import JsonSchema.Format.Check
import JsonSchema.Json.Text
import JsonSchema.Number.Multiple
import JsonSchema.Regex.Match
import JsonSchema.Schema.Node

/-!
# Assertions about a single value

The keywords that look at one value and not at the values inside it. Each check gives the keywords
that fail, with their messages.
-/

namespace JsonSchema

structure Failure where
  keyword : String
  message : String
deriving DecidableEq, Repr

def failIf (condition : Bool) (keyword : String) (message : String) : List Failure :=
  if condition then [⟨keyword, message⟩] else []

def failLimit {α : Type} (limit : Option α) (breaks : α → Bool) (keyword : String)
    (message : α → String) : List Failure :=
  match limit with
  | some limit => failIf (breaks limit) keyword (message limit)
  | none => []

/-! ## Values of every type -/

def typeNames (types : List Json.Kind) : String :=
  if types.isEmpty then "nothing" else " | ".intercalate (types.map (·.name))

def ValueKeywords.checkType (keywords : ValueKeywords) (value : Json) : List Failure :=
  failLimit keywords.types (fun types => !types.any value.hasKind) "type" fun types =>
    value.text ++ " is not of type " ++ typeNames types ++ " (got " ++ value.kind.name ++ ")"

def ValueKeywords.checkOptions (keywords : ValueKeywords) (value : Json) : List Failure :=
  failLimit keywords.options (fun options => !options.any value.same) "enum"
      (fun options => value.text ++ " is not one of " ++ (Json.arr options).text) ++
    failLimit keywords.const (fun expected => !value.same expected) "const" fun expected =>
      value.text ++ " is not equal to " ++ expected.text

/-! ## Numbers -/

def NumberKeywords.check (keywords : NumberKeywords) (n : Number) : List Failure :=
  failLimit keywords.minimum (fun limit => n.lt limit) "minimum"
      (fun limit => n.text ++ " is less than the minimum of " ++ limit.text) ++
    failLimit keywords.maximum (fun limit => limit.lt n) "maximum"
      (fun limit => n.text ++ " is greater than the maximum of " ++ limit.text) ++
    failLimit keywords.exclusiveMinimum (fun limit => n.le limit) "exclusiveMinimum"
      (fun limit => n.text ++ " is not greater than " ++ limit.text) ++
    failLimit keywords.exclusiveMaximum (fun limit => limit.le n) "exclusiveMaximum"
      (fun limit => n.text ++ " is not less than " ++ limit.text) ++
    failLimit keywords.multipleOf (fun step => !n.isMultipleOf step) "multipleOf"
      (fun step => n.text ++ " is not a multiple of " ++ step.text)

/-! ## Strings -/

/-- The failures of a string, formats apart. -/
def StringKeywords.check (keywords : StringKeywords) (s : String) : List Failure :=
  let shown := (Json.str s).text
  failLimit keywords.minLength (fun limit => decide (s.length < limit)) "minLength"
      (fun limit => shown ++ " is shorter than " ++ natText limit ++ " characters") ++
    failLimit keywords.maxLength (fun limit => decide (limit < s.length)) "maxLength"
      (fun limit => shown ++ " is longer than " ++ natText limit ++ " characters") ++
    failLimit keywords.pattern (fun pattern => !pattern.isIn s) "pattern"
      (fun pattern => shown ++ " does not match pattern '" ++ pattern.source ++ "'")

/-- The failure of a string's format; an unknown format never fails. -/
def StringKeywords.checkFormat (keywords : StringKeywords) (s : String) :
    Except Regex.Fault (List Failure) :=
  match keywords.format with
  | none => .ok []
  | some name =>
    (Format.check name s).map fun outcome =>
      failIf (outcome == some false) "format"
        ((Json.str s).text ++ " is not a valid '" ++ name ++ "'")

/-! ## Arrays -/

/-- The first pair of equal items; `index` is the index of the first item. -/
def firstEqualPair? : (index : Nat) → List Json → Option (Nat × Nat)
  | _, [] => none
  | index, item :: rest =>
    match rest.findIdx? item.same with
    | some distance => some (index, index + 1 + distance)
    | none => firstEqualPair? (index + 1) rest

def ArrayKeywords.check (keywords : ArrayKeywords) (items : List Json) : List Failure :=
  let size := items.length
  let duplicates := if keywords.uniqueItems then firstEqualPair? 0 items else none
  failLimit keywords.minItems (fun limit => decide (size < limit)) "minItems"
      (fun limit => "array has " ++ natText size ++ " items, fewer than the minimum of " ++
        natText limit) ++
    failLimit keywords.maxItems (fun limit => decide (limit < size)) "maxItems"
      (fun limit => "array has " ++ natText size ++ " items, more than the maximum of " ++
        natText limit) ++
    failLimit duplicates (fun _ => true) "uniqueItems"
      (fun (i, j) => "items at index " ++ natText i ++ " and " ++ natText j ++ " are equal")

/-! ## Objects -/

def missingDependencies (members : Members Json) (trigger : String) (names : List String) :
    List Failure :=
  if members.has trigger then
    names.flatMap fun name =>
      failIf (!members.has name) "dependentRequired"
        ("property '" ++ name ++ "' is required when '" ++ trigger ++ "' is present")
  else []

def ObjectKeywords.check (keywords : ObjectKeywords) (members : Members Json) : List Failure :=
  let size := members.length
  (keywords.required.flatMap fun name =>
      failIf (!members.has name) "required" ("missing required property '" ++ name ++ "'")) ++
    failLimit keywords.minProperties (fun limit => decide (size < limit)) "minProperties"
      (fun limit => "object has " ++ natText size ++ " properties, fewer than the minimum of " ++
        natText limit) ++
    failLimit keywords.maxProperties (fun limit => decide (limit < size)) "maxProperties"
      (fun limit => "object has " ++ natText size ++ " properties, more than the maximum of " ++
        natText limit) ++
    keywords.dependentRequired.flatMap fun (trigger, names) =>
      missingDependencies members trigger names

/-! ## Nodes -/

/-- The failures of a node that its value alone decides, formats apart. -/
def SchemaNode.failures (node : SchemaNode) (value : Json) : List Failure :=
  node.value.checkType value ++ node.value.checkOptions value ++
    match value with
    | .num n => node.number.check n
    | .arr items => node.array.check items
    | .obj members => node.object.check members
    | .str s => node.string.check s
    | _ => []

/-- The failure of a node's format, where formats are asserted. -/
def SchemaNode.formatFailures (node : SchemaNode) (assertFormats : Bool) (value : Json) :
    Except Regex.Fault (List Failure) :=
  match value with
  | .str s => if assertFormats then node.string.checkFormat s else .ok []
  | _ => .ok []

end JsonSchema

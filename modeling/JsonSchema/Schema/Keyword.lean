import JsonSchema.Schema.Draft
import JsonSchema.Schema.Fault
import JsonSchema.Schema.Node

/-!
# Reading keywords

The keywords that hold no schemas. Each reader looks at the members of a schema object and tells
what is wrong with a keyword's value.
-/

namespace JsonSchema

abbrev KeywordFault := String × KeywordProblem

/-! ## Lists of keywords -/

/-- Keywords that only carry information. -/
def annotationKeywords : List String :=
  ["$schema", "$id", "$anchor", "$comment", "$vocabulary", "$defs", "definitions", "title",
    "description", "default", "examples", "deprecated", "readOnly", "writeOnly", "contentEncoding",
    "contentMediaType", "contentSchema"]

/-- Keywords that an instance is checked against. -/
def assertionKeywords : List String :=
  ["$ref", "type", "enum", "const", "minimum", "maximum", "exclusiveMinimum", "exclusiveMaximum",
    "multipleOf", "minLength", "maxLength", "pattern", "format", "minItems", "maxItems",
    "uniqueItems", "items", "prefixItems", "additionalItems", "contains", "minContains",
    "maxContains", "required", "properties", "patternProperties", "additionalProperties",
    "minProperties", "maxProperties", "propertyNames", "dependentRequired", "dependentSchemas",
    "dependencies", "allOf", "anyOf", "oneOf", "not", "if", "then", "else"]

/-! ## Values -/

namespace Members

def number? (schema : Members Json) (keyword : String) : Except KeywordFault (Option Number) :=
  match schema.get? keyword with
  | none => .ok none
  | some (.num n) => .ok (some n)
  | some _ => .error (keyword, .notANumber)

/-- The count of a keyword; a number without a fraction will do. -/
def count? (schema : Members Json) (keyword : String) : Except KeywordFault (Option Nat) :=
  match schema.get? keyword with
  | none => .ok none
  | some (.num n) =>
    if n.isIntegral && (Number.int 0).le n then .ok (some n.truncate.toNat)
    else .error (keyword, .notACount)
  | some _ => .error (keyword, .notACount)

/-- The boolean of a keyword, false where it is missing. -/
def bool (schema : Members Json) (keyword : String) : Except KeywordFault Bool :=
  match schema.get? keyword with
  | none => .ok false
  | some (.bool b) => .ok b
  | some _ => .error (keyword, .notABoolean)

/-- The members of a keyword's object, none where it is missing. -/
def object (schema : Members Json) (keyword : String) : Except KeywordFault (Members Json) :=
  match schema.get? keyword with
  | none => .ok []
  | some (.obj members) => .ok members
  | some _ => .error (keyword, .notAnObject)

end Members

def Json.string? : Json → Option String
  | .str s => some s
  | _ => none

/-- Whether a value may be a schema. -/
def Json.isSchema : Json → Bool
  | .bool _ | .obj _ => true
  | _ => false

def stringList (keyword : String) (value : Json) : Except KeywordFault (List String) :=
  match value with
  | .arr items =>
    match items.mapM Json.string? with
    | some strings => .ok strings
    | none => .error (keyword, .notStrings)
  | _ => .error (keyword, .notStrings)

/-- A value that has to be an expression. A fault that is no matter of syntax is passed on. -/
def readPattern (location keyword : String) (value : Json) : Except CompileFault Pattern :=
  match value with
  | .str source =>
    match Pattern.read source with
    | .ok pattern => .ok pattern
    | .error (.bad problem position) =>
      .error (.badKeyword location keyword (.badPattern source (.bad problem position)))
    | .error fault => .error (.pattern source fault)
  | _ => .error (.badKeyword location keyword .notAPattern)

def KeywordFault.at (location : String) (fault : KeywordFault) : CompileFault :=
  .badKeyword location fault.1 fault.2

/-- A fault that shows values, if these can be written out. -/
def KeywordFault.shownAt (location : String) (fault : KeywordFault) : CompileFault :=
  if fault.2.hasText then fault.at location else .noText

/-! ## Groups of keywords -/

def readTypes (value : Json) : Except KeywordFault (List Json.Kind) :=
  let names := match value with
    | .str name => some [Json.str name]
    | .arr names => some names
    | _ => none
  match names with
  | none => .error ("type", .notTypeNames)
  | some names =>
    match names.filter fun name => (name.string?.bind Json.Kind.ofName?).isNone with
    | [] => .ok (names.filterMap fun name => name.string?.bind Json.Kind.ofName?)
    | unknown => .error ("type", .unknownTypes unknown)

def readValueKeywords (schema : Members Json) : Except KeywordFault ValueKeywords := do
  let types ← (schema.get? "type").mapM readTypes
  let options ← (schema.get? "enum").mapM fun value =>
    match value with
    | .arr options => .ok options
    | _ => .error ("enum", KeywordProblem.notAnArray)
  return { types, options, const := schema.get? "const" }

/-- A bound that a boolean may turn into an exclusive one. -/
structure Bound where
  inclusive : Option Number
  exclusive : Option Number

/--
An exclusive bound beside its inclusive one. In the oldest draft it is a boolean, which turns the
inclusive bound into an exclusive one.
-/
def readBound (declaration : DraftDeclaration) (schema : Members Json) (keyword : String)
    (inclusive : Option Number) : Except KeywordFault Bound :=
  match schema.get? keyword with
  | some (.bool isExclusive) =>
    if declaration.isDeclared && declaration.draft.atLeast .draft6 then
      .error (keyword, .booleanBound)
    else if isExclusive then .ok ⟨none, inclusive⟩
    else .ok ⟨inclusive, none⟩
  | _ => (schema.number? keyword).map fun exclusive => ⟨inclusive, exclusive⟩

def readNumberKeywords (declaration : DraftDeclaration) (schema : Members Json) :
    Except KeywordFault NumberKeywords := do
  let minimum ← schema.number? "minimum"
  let maximum ← schema.number? "maximum"
  let low ← readBound declaration schema "exclusiveMinimum" minimum
  let high ← readBound declaration schema "exclusiveMaximum" maximum
  let multipleOf ← schema.number? "multipleOf"
  if let some step := multipleOf then
    if step.le (.int 0) then throw ("multipleOf", .notPositive)
  return {
    minimum := low.inclusive
    maximum := high.inclusive
    exclusiveMinimum := low.exclusive
    exclusiveMaximum := high.exclusive
    multipleOf }

def readStringKeywords (location : String) (schema : Members Json) :
    Except CompileFault StringKeywords := do
  let minLength ← (schema.count? "minLength").mapError (·.at location)
  let maxLength ← (schema.count? "maxLength").mapError (·.at location)
  let pattern ← (schema.get? "pattern").mapM (readPattern location "pattern")
  let format ← (schema.get? "format").mapM fun value =>
    match value with
    | .str name => .ok name
    | _ => .error (CompileFault.badKeyword location "format" .notAString)
  return { minLength, maxLength, pattern, format }

/-! ## Anchors -/

def isAnchorStart (c : Char) : Bool := c.isAlpha || c == '_'

def isAnchorChar (c : Char) : Bool := c.isAlphanum || c == '-' || c == '.' || c == '_'

/-- A letter or an underscore, and then letters, digits, minus signs, points and underscores. -/
def isAnchorName (name : String) : Bool :=
  match name.toList with
  | c :: rest => isAnchorStart c && rest.all isAnchorChar
  | [] => false

def readAnchor (schema : Members Json) : Except KeywordFault (Option String) :=
  match schema.get? "$anchor" with
  | none | some .null => .ok none
  | some (.str name) =>
    if isAnchorName name then .ok (some name) else .error ("$anchor", .notAnAnchor)
  | some _ => .error ("$anchor", .notAnAnchor)

/-- The name that an identifier of nothing but a fragment declares, as older drafts do. -/
def identifierAnchor? (schema : Members Json) : Option String :=
  match (schema.get? "$id").bind Json.string? with
  | some id =>
    match id.toList with
    | '#' :: c :: rest => some (String.ofList (c :: rest))
    | _ => none
  | none => none

def readAnchors (schema : Members Json) : Except KeywordFault (List String) :=
  (readAnchor schema).map fun anchor => anchor.toList ++ (identifierAnchor? schema).toList

def readRef (schema : Members Json) : Except KeywordFault (Option String) :=
  match schema.get? "$ref" with
  | none => .ok none
  | some (.str ref) => .ok (some ref)
  | some _ => .error ("$ref", .notAString)

/-! ## Annotations -/

/-- The members of a schema that no instance is checked against. -/
def annotationsOf (schema : Members Json) : Members Json :=
  schema.filter fun (keyword, _) => !assertionKeywords.contains keyword

def isUnknownKeyword (keyword : String) : Bool :=
  !assertionKeywords.contains keyword && !annotationKeywords.contains keyword

end JsonSchema

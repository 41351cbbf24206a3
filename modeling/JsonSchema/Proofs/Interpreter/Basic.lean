import JsonSchema.Evaluation.Basic
import JsonSchema.Proofs.Pointer.Place
import JsonSchema.Schema.Compile

/-!
# Schemas without compilation

An interpreter reads a schema document as it stands. It looks the keywords up in the schema object
each time, and at a reference it walks from the root of the document to the place that is meant.
A keyword with a value that no schema may have asks nothing here.
-/

namespace JsonSchema

def Json.target? (document : Json) (ref : String) : Option Json :=
  match Pointer.split ref with
  | .ok tokens => document.walk? tokens
  | .error _ => none

namespace Interpreter

/-! ## Reading keywords -/

/-- A keyword that is missing asks nothing. -/
def asks (schema : Members Json) (keyword : String) (check : Json → Bool) : Bool :=
  (schema.get? keyword).all check

def onNumber (check : Number → Bool) : Json → Bool
  | .num n => check n
  | _ => true

def onText (check : String → Bool) : Json → Bool
  | .str s => check s
  | _ => true

def asksNumber (schema : Members Json) (keyword : String) (check : Number → Bool) : Bool :=
  asks schema keyword (onNumber check)

/-- A count may be written as any number without a fraction. -/
def asksCount (schema : Members Json) (keyword : String) (check : Nat → Bool) : Bool :=
  asksNumber schema keyword fun n => check n.truncate.toNat

def asksText (schema : Members Json) (keyword : String) (check : String → Bool) : Bool :=
  asks schema keyword (onText check)

def isTrue (schema : Members Json) (keyword : String) : Bool :=
  match schema.get? keyword with
  | some (.bool b) => b
  | _ => false

/-! ## Values alone -/

def isOfType (value : Json) : Json → Bool
  | .str name => (Json.Kind.ofName? name).any value.hasKind
  | _ => false

def isOfTypes (value : Json) : Json → Bool
  | .arr names => names.any (isOfType value)
  | name => isOfType value name

def isAmong (value : Json) : Json → Bool
  | .arr options => options.any value.same
  | _ => true

def valueAllows (schema : Members Json) (value : Json) : Bool :=
  asks schema "type" (isOfTypes value) && asks schema "enum" (isAmong value) &&
  asks schema "const" value.same

/-- A true exclusive bound makes the bound beside it strict, as the oldest draft has it. -/
def numberAllows (schema : Members Json) (n : Number) : Bool :=
  asksNumber schema "minimum" (fun limit =>
    if isTrue schema "exclusiveMinimum" then limit.lt n else limit.le n) &&
  asksNumber schema "maximum" (fun limit =>
    if isTrue schema "exclusiveMaximum" then n.lt limit else n.le limit) &&
  asksNumber schema "exclusiveMinimum" (fun limit => limit.lt n) &&
  asksNumber schema "exclusiveMaximum" (fun limit => n.lt limit) &&
  asksNumber schema "multipleOf" (fun step => n.isMultipleOf step)

def matchesSource (source s : String) : Bool :=
  match Pattern.read source with
  | .ok pattern => pattern.isIn s
  | .error _ => true

/-- A format without a known name allows every string. -/
def hasFormat (name s : String) : Bool :=
  (Format.ofName? name).all fun format =>
    match format.accepts s with
    | .ok accepted => accepted
    | .error _ => false

def stringAllows (assertFormats : Bool) (schema : Members Json) (s : String) : Bool :=
  asksCount schema "minLength" (fun limit => decide (limit ≤ s.length)) &&
  asksCount schema "maxLength" (fun limit => decide (s.length ≤ limit)) &&
  asksText schema "pattern" (fun source => matchesSource source s) &&
  (!assertFormats || asksText schema "format" (fun name => hasFormat name s))

/-! ## Values and the schemas of their parts

`apply` applies another schema of the document to a value.
-/

section

variable (apply : Json → Json → Bool) (declaration : DraftDeclaration) (schema : Members Json)

def itemSchemas : List Json × Option Json :=
  match schema.get? "items" with
  | some (.arr first) => (first, schema.get? "additionalItems")
  | rest =>
    (if !declaration.isDeclared || declaration.draft == .draft2020 then schema.itemsAt "prefixItems"
      else [], rest)

def itemsAllow (values : List Json) : Bool :=
  let (first, rest) := itemSchemas declaration schema
  (first.zip values).all (fun (inner, value) => apply inner value) &&
    rest.all fun inner => (values.drop first.length).all (apply inner)

def containsAllows (values : List Json) : Bool :=
  asks schema "contains" fun inner =>
    let found := values.countP (apply inner)
    (if schema.has "minContains" then
      asksCount schema "minContains" fun least => decide (least ≤ found)
    else decide (1 ≤ found)) &&
      asksCount schema "maxContains" fun most => decide (found ≤ most)

def arrayAllows (values : List Json) : Bool :=
  asksCount schema "minItems" (fun limit => decide (limit ≤ values.length)) &&
  asksCount schema "maxItems" (fun limit => decide (values.length ≤ limit)) &&
  (!isTrue schema "uniqueItems" || decide (values.Pairwise fun a b => a.same b = false)) &&
  itemsAllow apply declaration schema values &&
  containsAllows apply schema values

def hasAll (object : Members Json) (names : List Json) : Bool :=
  names.all (onText object.has)

def matchingSchemas (entries : Members Json) (name : String) : List Json :=
  (entries.filter fun entry => matchesSource entry.1 name).map (·.2)

/-- A property that nothing else speaks of is left to `additionalProperties`. -/
def propertyAllows (name : String) (value : Json) : Bool :=
  let named := (schema.membersAt "properties").get? name
  let matching := matchingSchemas (schema.membersAt "patternProperties") name
  named.all (fun inner => apply inner value) &&
  matching.all (fun inner => apply inner value) &&
  (named.isSome || !matching.isEmpty ||
    asks schema "additionalProperties" fun inner => apply inner value)

def dependentSchemaAllows (object : Members Json) (entry : String × Json) : Bool :=
  !object.has entry.1 || apply entry.2 (.obj object)

/-- What a property asks for when it is present: a list of names or a schema. -/
def dependencyAllows (object : Members Json) (entry : String × Json) : Bool :=
  match entry.2 with
  | .arr names => !object.has entry.1 || hasAll object names
  | _ => dependentSchemaAllows apply object entry

def objectAllows (object : Members Json) : Bool :=
  hasAll object (schema.itemsAt "required") &&
  asksCount schema "minProperties" (fun limit => decide (limit ≤ object.length)) &&
  asksCount schema "maxProperties" (fun limit => decide (object.length ≤ limit)) &&
  object.all (fun property => propertyAllows apply schema property.1 property.2) &&
  object.names.all (fun name => asks schema "propertyNames" fun inner => apply inner (.str name)) &&
  (schema.membersAt "dependentRequired").all (dependencyAllows apply object) &&
  (schema.membersAt "dependentSchemas").all (dependentSchemaAllows apply object) &&
  (schema.membersAt "dependencies").all (dependencyAllows apply object)

def compositionAllows (value : Json) : Bool :=
  (schema.itemsAt "allOf").all (fun inner => apply inner value) &&
  ((schema.itemsAt "anyOf").isEmpty || (schema.itemsAt "anyOf").any fun inner => apply inner value) &&
  ((schema.itemsAt "oneOf").isEmpty ||
    (schema.itemsAt "oneOf").countP (fun inner => apply inner value) == 1) &&
  asks schema "not" (fun inner => !apply inner value) &&
  asks schema "if" fun condition =>
    if apply condition value then asks schema "then" fun inner => apply inner value
    else asks schema "else" fun inner => apply inner value

/-! ## Whole schemas -/

def typedAllows (assertFormats : Bool) (value : Json) : Bool :=
  match value with
  | .num n => numberAllows schema n
  | .str s => stringAllows assertFormats schema s
  | .arr values => arrayAllows apply declaration schema values
  | .obj object => objectAllows apply schema object
  | _ => true

def refAllows (document value : Json) : Bool :=
  asksText schema "$ref" fun ref => (document.target? ref).all fun inner => apply inner value

end

/--
Whether a schema of a document allows a value. Schemas may apply each other without end, so `fuel`
counts the schemas inside each other, and below the last one `guess` is believed.
-/
def allows (document : Json) (assertFormats : Bool) (guess : Json → Json → Bool) :
    (fuel : Nat) → (schema value : Json) → Bool
  | 0, schema, value => guess schema value
  | _ + 1, .bool b, _ => b
  | fuel + 1, .obj schema, value =>
    let apply := allows document assertFormats guess fuel
    refAllows apply schema document value &&
    valueAllows schema value &&
    typedAllows apply (.ofJson? (document.member? "$schema")) schema assertFormats value &&
    compositionAllows apply schema value
  | _ + 1, _, _ => true

end Interpreter

end JsonSchema

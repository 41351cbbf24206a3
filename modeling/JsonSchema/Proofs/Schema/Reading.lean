import JsonSchema.Proofs.Schema.Growth
import JsonSchema.Schema.Compile
import Mathlib.Data.List.Forall2

/-!
# What a node tells about its schema

A node takes its keywords from a schema object, and its children are the nodes of the places where
that object holds schemas.
-/

namespace JsonSchema

open CompileM

namespace Members

theorem object_eq_ok {schema members : Members Json} {keyword : String}
    (h : schema.object keyword = .ok members) : members = schema.membersAt keyword := by
  unfold object at h
  unfold membersAt
  split at h
  · simp_all
  · simp_all
  · cases h

def HasList (schema : Members Json) (keyword : String) : Prop :=
  ∀ value, schema.get? keyword = some value → ∃ item items, value = .arr (item :: items)

def HasTable (schema : Members Json) (keyword : String) : Prop :=
  ∀ value, schema.get? keyword = some value → ∃ members, value = .obj members

theorem hasTable_of_object {schema members : Members Json} {keyword : String}
    (h : schema.object keyword = .ok members) : schema.HasTable keyword := by
  intro value hget
  unfold object at h
  rw [hget] at h
  split at h
  case h_1 hnone => cases hnone
  case h_2 found hsome => exact ⟨found, Option.some.inj hsome⟩
  case h_3 => cases h

end Members

def Json.anchorNames (value : Json) : List String :=
  match value with
  | .obj schema => (readAnchors schema).toOption.getD []
  | _ => []

/-! ## Children -/

section

variable (c : Compilation) (site : Site)

/-- The node of the value that a keyword and tokens lead to from a schema object. -/
def ChildNode (keyword : String) (tokens : List String) (value : Json) (id : NodeId) : Prop :=
  c.NodeOf site.key (Pointer.join site.pointer (keyword :: tokens)) value id

def ItemNodes (keyword : String) (items : List Json) (children : List NodeId) : Prop :=
  List.Forall₂ (fun id entry => ChildNode c site keyword [natText entry.2] entry.1 id) children
    items.zipIdx

def MemberNodes (keyword : String) (members : Members Json) (children : Members NodeId) : Prop :=
  List.Forall₂ (fun child member => child.1 = member.1 ∧
    ChildNode c site keyword [member.1] member.2 child.2) children members

def PatternNodes (members : Members Json) (children : List PatternProperty) : Prop :=
  List.Forall₂ (fun child member => Pattern.read member.1 = .ok child.pattern ∧
    ChildNode c site "patternProperties" [member.1] member.2 child.node) children members

variable (schema : Members Json)

def KeywordNode (keyword : String) (child : Option NodeId) : Prop :=
  Option.Rel (fun id value => ChildNode c site keyword [] value id) child (schema.get? keyword)

/-! ## Arrays -/

structure OlderItemNodes (items : List Json) (children : ItemSchemas) : Prop where
  allowed : allowsOlderItems site.declaration = true
  alone : schema.has "prefixItems" = false
  first : ItemNodes c site "items" items children.first
  firstKeyword : children.firstKeyword = "items"
  rest : KeywordNode c site schema "additionalItems" children.rest
  restKeyword : children.rest.isSome = true → children.restKeyword = "additionalItems"

/-- Where the latest rules do not hold, the keyword for the first items counts for nothing. -/
structure LatestItemNodes (children : ItemSchemas) : Prop where
  first : ItemNodes c site "prefixItems"
    (if allowsLatestItems site.declaration then schema.itemsAt "prefixItems" else []) children.first
  firstKeyword : children.firstKeyword = "prefixItems"
  list : allowsLatestItems site.declaration = true → schema.HasList "prefixItems"
  rest : KeywordNode c site schema "items" children.rest
  restKeyword : children.restKeyword = "items"

def ItemSchemaNodes (children : ItemSchemas) : Prop :=
  match schema.get? "items" with
  | some (.arr items) => OlderItemNodes c site schema items children
  | _ => LatestItemNodes c site schema children

structure ArrayReading (keywords : ArrayKeywords) : Prop where
  minItems : schema.count? "minItems" = .ok keywords.minItems
  maxItems : schema.count? "maxItems" = .ok keywords.maxItems
  uniqueItems : schema.bool "uniqueItems" = .ok keywords.uniqueItems
  items : ItemSchemaNodes c site schema ⟨keywords.firstItems, keywords.firstItemsKeyword,
    keywords.items, keywords.itemsKeyword⟩
  contains : KeywordNode c site schema "contains" keywords.contains
  minContains : schema.count? "minContains" = .ok keywords.minContains
  maxContains : schema.count? "maxContains" = .ok keywords.maxContains

/-! ## Objects -/

/-- What the members of the older keyword for dependencies add, one after the other. -/
inductive OlderDependencies : Dependencies → Members Json → Dependencies → Prop where
  | none (done : Dependencies) : OlderDependencies done [] done
  | names {done result : Dependencies} {rest : Members Json} {name : String} {names : List Json}
      {required : List String} (hnames : stringList "dependencies" (.arr names) = .ok required)
      (hrest : OlderDependencies { done with names := done.names.put name required } rest result) :
      OlderDependencies done ((name, .arr names) :: rest) result
  | schema {done result : Dependencies} {rest : Members Json} {name : String} {value : Json}
      {id : NodeId} (hvalue : ∀ items, value ≠ .arr items)
      (hnode : ChildNode c site "dependencies" [name] value id)
      (hrest : OlderDependencies { done with schemas := done.schemas.put name id } rest result) :
      OlderDependencies done ((name, value) :: rest) result

def DependencyReading (dependencies : Dependencies) : Prop :=
  ∃ names schemas,
    readNameLists "dependentRequired" (schema.membersAt "dependentRequired") = .ok names ∧
    MemberNodes c site "dependentSchemas" (schema.membersAt "dependentSchemas") schemas ∧
    OlderDependencies c site ⟨names, schemas⟩ (schema.membersAt "dependencies") dependencies

structure ObjectReading (keywords : ObjectKeywords) : Prop where
  tables : ∀ keyword ∈ ["properties", "patternProperties", "dependentRequired", "dependentSchemas",
    "dependencies"], schema.HasTable keyword
  required : ∃ names, (schema.get? "required").mapM (stringList "required") = .ok names ∧
    keywords.required = names.getD []
  properties : MemberNodes c site "properties" (schema.membersAt "properties") keywords.properties
  patternProperties : PatternNodes c site (schema.membersAt "patternProperties")
    keywords.patternProperties
  additionalProperties : KeywordNode c site schema "additionalProperties"
    keywords.additionalProperties
  minProperties : schema.count? "minProperties" = .ok keywords.minProperties
  maxProperties : schema.count? "maxProperties" = .ok keywords.maxProperties
  propertyNames : KeywordNode c site schema "propertyNames" keywords.propertyNames
  dependencies : DependencyReading c site schema
    ⟨keywords.dependentRequired, keywords.dependentSchemas⟩

/-! ## Compositions -/

structure CompositionReading (keywords : Composition) : Prop where
  lists : ∀ keyword ∈ ["allOf", "anyOf", "oneOf"], schema.HasList keyword
  allOf : ItemNodes c site "allOf" (schema.itemsAt "allOf") keywords.allOf
  anyOf : ItemNodes c site "anyOf" (schema.itemsAt "anyOf") keywords.anyOf
  oneOf : ItemNodes c site "oneOf" (schema.itemsAt "oneOf") keywords.oneOf
  negated : KeywordNode c site schema "not" keywords.negated
  condition : KeywordNode c site schema "if" keywords.condition
  consequent : KeywordNode c site schema "then" keywords.consequent
  alternative : KeywordNode c site schema "else" keywords.alternative

/-! ## Nodes -/

/-- A table whose schemas no keyword of the node applies. -/
structure DefinitionNodes (keyword : String) : Prop where
  table : schema.HasTable keyword
  nodes : ∃ children, MemberNodes c site keyword (schema.membersAt keyword) children

structure SchemaReading (node : SchemaNode) : Prop where
  location : node.location = site.location
  anchors : ∃ names, readAnchors schema = .ok names
  boolean : node.boolean = none
  ref : readRef schema = .ok node.ref
  refTarget : node.refTarget = none
  value : readValueKeywords schema = .ok node.value
  number : readNumberKeywords site.declaration schema = .ok node.number
  string : readStringKeywords site.location schema = .ok node.string
  array : ArrayReading c site schema node.array
  object : ObjectReading c site schema node.object
  composition : CompositionReading c site schema node.composition
  defs : DefinitionNodes c site schema "$defs"
  definitions : DefinitionNodes c site schema "definitions"
  annotations : node.annotations = annotationsOf schema

/-- What the node of a value tells, before references have targets. -/
def Reading (value : Json) (node : SchemaNode) : Prop :=
  match value with
  | .bool b => node = { id := node.id, location := site.location, boolean := some b }
  | .obj schema => SchemaReading c site schema node
  | _ => False

end

end JsonSchema

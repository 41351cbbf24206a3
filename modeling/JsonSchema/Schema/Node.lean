import JsonSchema.Json.Basic
import JsonSchema.Regex.Read
import JsonSchema.Schema.Draft

/-!
# Compiled schemas

A compiled schema is an array of nodes, one for each place of a schema. Nodes name each other by
their index, so schemas that refer to themselves need no cyclic values.
-/

namespace JsonSchema

abbrev NodeId := Nat

/-! ## Keywords of a node -/

/-- The keywords for values of every type. -/
structure ValueKeywords where
  types : Option (List Json.Kind) := none
  options : Option (List Json) := none
  const : Option Json := none
deriving Inhabited

structure NumberKeywords where
  minimum : Option Number := none
  maximum : Option Number := none
  exclusiveMinimum : Option Number := none
  exclusiveMaximum : Option Number := none
  multipleOf : Option Number := none
deriving Inhabited

structure StringKeywords where
  minLength : Option Nat := none
  maxLength : Option Nat := none
  pattern : Option Pattern := none
  format : Option String := none
deriving Inhabited

structure ArrayKeywords where
  minItems : Option Nat := none
  maxItems : Option Nat := none
  uniqueItems : Bool := false
  /-- The schemas of the first items, and the keyword that gave them. -/
  firstItems : List NodeId := []
  firstItemsKeyword : String := "prefixItems"
  /-- The schema of all further items, and the keyword that gave it. -/
  items : Option NodeId := none
  itemsKeyword : String := "items"
  contains : Option NodeId := none
  minContains : Option Nat := none
  maxContains : Option Nat := none
deriving Inhabited

/-- A schema for the properties whose names match an expression. -/
structure PatternProperty where
  pattern : Pattern
  node : NodeId

structure ObjectKeywords where
  required : List String := []
  properties : Members NodeId := []
  patternProperties : List PatternProperty := []
  additionalProperties : Option NodeId := none
  minProperties : Option Nat := none
  maxProperties : Option Nat := none
  propertyNames : Option NodeId := none
  dependentRequired : Members (List String) := []
  dependentSchemas : Members NodeId := []
deriving Inhabited

/-- The keywords that combine schemas for the same value. -/
structure Composition where
  allOf : List NodeId := []
  anyOf : List NodeId := []
  oneOf : List NodeId := []
  negated : Option NodeId := none
  condition : Option NodeId := none
  consequent : Option NodeId := none
  alternative : Option NodeId := none
deriving Inhabited

/-! ## Nodes -/

structure SchemaNode where
  id : NodeId
  /-- The key of the document, a `#` and the pointer of the schema in it. -/
  location : String
  boolean : Option Bool := none
  ref : Option String := none
  refTarget : Option NodeId := none
  value : ValueKeywords := {}
  number : NumberKeywords := {}
  string : StringKeywords := {}
  array : ArrayKeywords := {}
  object : ObjectKeywords := {}
  composition : Composition := {}
  /-- The keywords that assert nothing. -/
  annotations : Members Json := []
deriving Inhabited

def SchemaNode.keywordPath (node : SchemaNode) (keyword : String) : String :=
  node.location ++ "/" ++ keyword

def rootId : NodeId := 0

structure CompiledSchema where
  nodes : Array SchemaNode
  draft : Draft
  /-- The location of each node, in the order of indices. -/
  locations : Array String
  warnings : List String
deriving Inhabited

namespace CompiledSchema

def node? (schema : CompiledSchema) (id : NodeId) : Option SchemaNode := schema.nodes[id]?

/-- The node that was compiled from this location. -/
def nodeAt? (schema : CompiledSchema) (location : String) : Option SchemaNode :=
  (schema.locations.idxOf? location).bind schema.node?

def referenceCount (schema : CompiledSchema) : Nat :=
  (schema.nodes.filter (·.ref.isSome)).size

end CompiledSchema

end JsonSchema

import JsonSchema.Evaluation.Basic
import JsonSchema.Proofs.Number.Value

/-!
# What a schema asks of a value

Pure predicates, with no violations, no order and no early end in them. `Verdict.lean` shows that
an evaluation that comes to an end finds violations exactly where these predicates fail.
-/

namespace JsonSchema

/-! ## Values alone -/

/-- A number is of type integer when its value is one, however it is written. -/
def Json.OfKind (value : Json) : Json.Kind → Prop
  | .null => value = .null
  | .boolean => ∃ b, value = .bool b
  | .integer => ∃ n : Number, value = .num n ∧ ∃ k : ℤ, n.value = k
  | .number => ∃ n, value = .num n
  | .string => ∃ s, value = .str s
  | .array => ∃ items, value = .arr items
  | .object => ∃ members, value = .obj members

structure ValueKeywords.Holds (keywords : ValueKeywords) (value : Json) : Prop where
  types : ∀ types ∈ keywords.types, ∃ kind ∈ types, value.OfKind kind
  options : ∀ options ∈ keywords.options, ∃ option ∈ options, value.same option = true
  const : ∀ expected ∈ keywords.const, value.same expected = true

structure NumberKeywords.Holds (keywords : NumberKeywords) (n : Number) : Prop where
  minimum : ∀ limit ∈ keywords.minimum, limit.value ≤ n.value
  maximum : ∀ limit ∈ keywords.maximum, n.value ≤ limit.value
  exclusiveMinimum : ∀ limit ∈ keywords.exclusiveMinimum, limit.value < n.value
  exclusiveMaximum : ∀ limit ∈ keywords.exclusiveMaximum, n.value < limit.value
  multipleOf : ∀ step ∈ keywords.multipleOf, n.isMultipleOf step = true

/-- A format counts only where formats are asserted and its name is known. -/
structure StringKeywords.Holds (keywords : StringKeywords) (assertFormats : Bool) (s : String) :
    Prop where
  minLength : ∀ limit ∈ keywords.minLength, limit ≤ s.length
  maxLength : ∀ limit ∈ keywords.maxLength, s.length ≤ limit
  pattern : ∀ pattern ∈ keywords.pattern, pattern.isIn s = true
  format : assertFormats = true → ∀ name ∈ keywords.format, ∀ format ∈ Format.ofName? name,
    format.accepts s = .ok true

/-! ## Values and the schemas of their parts

`sat` tells which nodes hold of which values.
-/

open Classical in
noncomputable def countHolding (sat : NodeId → Json → Prop) (child : NodeId) (values : List Json) :
    Nat :=
  values.countP fun value => decide (sat child value)

structure ArrayKeywords.Holds (keywords : ArrayKeywords) (sat : NodeId → Json → Prop)
    (items : List Json) : Prop where
  minItems : ∀ limit ∈ keywords.minItems, limit ≤ items.length
  maxItems : ∀ limit ∈ keywords.maxItems, items.length ≤ limit
  uniqueItems : keywords.uniqueItems = true → items.Pairwise fun a b => a.same b = false
  firstItems : ∀ i : Nat, ∀ child ∈ keywords.firstItems[i]?, ∀ item ∈ items[i]?, sat child item
  furtherItems : ∀ child ∈ keywords.items, ∀ item ∈ items.drop keywords.firstItems.length,
    sat child item
  minContains : ∀ child ∈ keywords.contains,
    keywords.minContains.getD 1 ≤ countHolding sat child items
  maxContains : ∀ child ∈ keywords.contains, ∀ limit ∈ keywords.maxContains,
    countHolding sat child items ≤ limit

/-- A property that `properties` does not name and no expression of `patternProperties` matches. -/
def ObjectKeywords.IsAdditional (keywords : ObjectKeywords) (name : String) : Prop :=
  keywords.properties.get? name = none ∧
    ∀ entry ∈ keywords.patternProperties, entry.pattern.isIn name = false

structure ObjectKeywords.Holds (keywords : ObjectKeywords) (sat : NodeId → Json → Prop)
    (members : Members Json) : Prop where
  required : ∀ name ∈ keywords.required, members.has name = true
  minProperties : ∀ limit ∈ keywords.minProperties, limit ≤ members.length
  maxProperties : ∀ limit ∈ keywords.maxProperties, members.length ≤ limit
  dependentRequired : ∀ trigger names, (trigger, names) ∈ keywords.dependentRequired →
    members.has trigger = true → ∀ name ∈ names, members.has name = true
  properties : ∀ name value, (name, value) ∈ members →
    ∀ child ∈ keywords.properties.get? name, sat child value
  patternProperties : ∀ name value, (name, value) ∈ members →
    ∀ entry ∈ keywords.patternProperties, entry.pattern.isIn name = true → sat entry.node value
  additionalProperties : ∀ name value, (name, value) ∈ members → keywords.IsAdditional name →
    ∀ child ∈ keywords.additionalProperties, sat child value
  propertyNames : ∀ child ∈ keywords.propertyNames, ∀ name ∈ members.names, sat child (.str name)
  dependentSchemas : ∀ trigger child, (trigger, child) ∈ keywords.dependentSchemas →
    members.has trigger = true → sat child (.obj members)

open Classical in
/-- An empty list of schemas asks nothing. -/
structure Composition.Holds (keywords : Composition) (sat : NodeId → Json → Prop) (value : Json) :
    Prop where
  allOf : ∀ child ∈ keywords.allOf, sat child value
  anyOf : keywords.anyOf ≠ [] → ∃ child ∈ keywords.anyOf, sat child value
  oneOf : keywords.oneOf ≠ [] → keywords.oneOf.countP (fun child => decide (sat child value)) = 1
  negated : ∀ child ∈ keywords.negated, ¬ sat child value
  consequent : ∀ child ∈ keywords.condition, sat child value →
    ∀ branch ∈ keywords.consequent, sat branch value
  alternative : ∀ child ∈ keywords.condition, ¬ sat child value →
    ∀ branch ∈ keywords.alternative, sat branch value

/-! ## Nodes -/

namespace SchemaNode

def TypedHolds (node : SchemaNode) (assertFormats : Bool) (sat : NodeId → Json → Prop) :
    Json → Prop
  | .num n => node.number.Holds n
  | .str s => node.string.Holds assertFormats s
  | .arr items => node.array.Holds sat items
  | .obj members => node.object.Holds sat members
  | _ => True

/-- What a node asks of a value: a boolean is its own answer, and keywords all have to hold. -/
def Holds (node : SchemaNode) (assertFormats : Bool) (sat : NodeId → Json → Prop) (value : Json) :
    Prop :=
  match node.boolean with
  | some b => b = true
  | none =>
    (∀ target ∈ node.refTarget, sat target value) ∧ node.value.Holds value ∧
      node.TypedHolds assertFormats sat value ∧ node.composition.Holds sat value

end SchemaNode

namespace CompiledSchema

/-- The predicate whose nodes refer to `sat` for other nodes. -/
def Unfolds (schema : CompiledSchema) (assertFormats : Bool) (sat : NodeId → Json → Prop)
    (id : NodeId) (value : Json) : Prop :=
  ∀ node ∈ schema.node? id, node.Holds assertFormats sat value

/-- What the nodes ask after `depth` references to other nodes; below that, `base` is believed. -/
def unfolded (schema : CompiledSchema) (assertFormats : Bool) (base : NodeId → Json → Prop) :
    (depth : Nat) → NodeId → Json → Prop
  | 0 => base
  | depth + 1 => schema.Unfolds assertFormats (schema.unfolded assertFormats base depth)

/--
A value satisfies a node when finitely many unfoldings show it, whatever is believed below them.
Nodes may refer to themselves, also under `not`, so the equations need not have a solution.
-/
def Satisfies (schema : CompiledSchema) (assertFormats : Bool) (id : NodeId) (value : Json) :
    Prop :=
  ∃ depth, ∀ base, schema.unfolded assertFormats base depth id value

variable {schema : CompiledSchema} {assertFormats : Bool}

theorem unfolded_add (base : NodeId → Json → Prop) (m n : Nat) :
    schema.unfolded assertFormats base (m + n) =
      schema.unfolded assertFormats (schema.unfolded assertFormats base n) m := by
  induction m with
  | zero => rw [Nat.zero_add]; rfl
  | succ m ih => rw [Nat.succ_add, unfolded, ih]; rfl

/-- What one number of unfoldings shows cannot be refuted by another one. -/
theorem Satisfies.unfolded_of_all {id : NodeId} {value : Json} {p : Prop} {depth : Nat}
    (h : schema.Satisfies assertFormats id value)
    (hp : ∀ base, p ↔ schema.unfolded assertFormats base depth id value) : p := by
  obtain ⟨m, hm⟩ := h
  -- Both numbers of unfoldings are parts of their sum, on top of which any base may stand.
  have base : NodeId → Json → Prop := fun _ _ => True
  rw [hp (schema.unfolded assertFormats base m), ← unfolded_add, Nat.add_comm, unfolded_add]
  exact hm _

theorem unfolded_solution {sat : NodeId → Json → Prop} (hsat : schema.Unfolds assertFormats sat = sat)
    (depth : Nat) : schema.unfolded assertFormats sat depth = sat := by
  induction depth with
  | zero => rfl
  | succ depth ih => rw [unfolded, ih, hsat]

end CompiledSchema

end JsonSchema

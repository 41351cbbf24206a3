import JsonSchema.Evaluation.Shown

/-!
# Annotations do not count

An evaluation looks at nodes only, and there not at the annotations.
-/

namespace JsonSchema

def SchemaNode.bare (node : SchemaNode) : SchemaNode := { node with annotations := [] }

namespace CompiledSchema

theorem shownViolations_bare (node : SchemaNode) (schema : CompiledSchema) :
    node.bare.shownViolations schema = node.shownViolations schema := rfl

variable {schema other : CompiledSchema}

/-- The two schemas have the same nodes, annotations apart. -/
def SameNodes (schema other : CompiledSchema) : Prop :=
  ∀ id, (other.node? id).map SchemaNode.bare = (schema.node? id).map SchemaNode.bare

namespace SameNodes

variable (h : schema.SameNodes other)

include h

theorem boolean (id : NodeId) :
    (other.node? id).bind (·.boolean) = (schema.node? id).bind (·.boolean) := by
  have hbare (found : Option SchemaNode) :
      (found.map SchemaNode.bare).bind (·.boolean) = found.bind (·.boolean) := by
    cases found <;> rfl
  rw [← hbare, h id, hbare]

theorem descend (node : SchemaNode) : node.descend other = node.descend schema := by
  funext apply applicator child value path
  rw [SchemaNode.descend, SchemaNode.descend, h.boolean]

theorem shownViolations (node : SchemaNode) :
    node.shownViolations other = node.shownViolations schema := by
  funext options apply value path
  unfold SchemaNode.shownViolations SchemaNode.violations SchemaNode.innerShown
    SchemaNode.innerViolations SchemaNode.arrayShown SchemaNode.arrayViolations
    SchemaNode.itemViolations SchemaNode.objectViolations SchemaNode.propertyViolations
    SchemaNode.namedViolations SchemaNode.patternViolations SchemaNode.additionalViolations
    SchemaNode.nameViolations SchemaNode.dependentViolations SchemaNode.compositionViolations
    SchemaNode.conditionViolations
  simp only [h.descend]

theorem evaluateShown (options : EvaluationOptions) (budget : Nat) :
    other.evaluateShown options budget = schema.evaluateShown options budget := by
  induction budget with
  | zero => rfl
  | succ budget ih =>
    funext id value path
    have hsame := h id
    unfold CompiledSchema.evaluateShown
    rw [ih]
    cases hnode : schema.node? id with
    | none =>
      rw [hnode, Option.map_none, Option.map_eq_none_iff] at hsame
      rw [hsame]
    | some node =>
      rw [hnode, Option.map_some, Option.map_eq_some_iff] at hsame
      obtain ⟨node', hother, hbare⟩ := hsame
      rw [hother]
      dsimp only
      rw [h.shownViolations, ← shownViolations_bare node', hbare, shownViolations_bare]

theorem validateShown (options : EvaluationOptions) (value : Json) :
    other.validateShown options value = schema.validateShown options value := by
  rw [CompiledSchema.validateShown, CompiledSchema.validateShown, h.evaluateShown]

end SameNodes

end CompiledSchema

end JsonSchema

import JsonSchema.Proofs.Relation
import JsonSchema.Proofs.Evaluation.Shown

/-!
# Circular schemas

Some keywords apply another node to the value at hand whatever that value is. Where the root leads
into a circle of such keywords no depth is enough, so no instance has an outcome.
-/

namespace JsonSchema

open Relation (TransGen ReflTransGen)

namespace SchemaNode

/-- The keywords that apply another node to every value that the node itself is applied to. -/
inductive Compels (node : SchemaNode) (schema : CompiledSchema) (child : NodeId) : Prop
  | ref (h : node.refTarget = some child)
  | allOf (h : child ∈ node.composition.allOf)
      (hboolean : (schema.node? child).bind (·.boolean) = none)
  | anyOf (h : node.composition.anyOf.head? = some child)
  | oneOf (h : child ∈ node.composition.oneOf)
  | negated (h : node.composition.negated = some child)
  | condition (h : node.composition.condition = some child)

variable {node : SchemaNode} {schema : CompiledSchema} {options : EvaluationOptions}
  {apply : Apply} {child : NodeId} {value : Json} {path : Path} {violations : Violations}

/-! ## One node -/

theorem collect_eq_ok {α : Type} {check : α → Evaluated Violations} {list : List α}
    (h : collect check list = .ok violations) {a : α} (ha : a ∈ list) :
    ∃ found, check a = .ok found := by
  induction list generalizing violations with
  | nil => cases ha
  | cons first rest ih =>
    obtain ⟨found, hfirst, hrest⟩ := Except.bind_eq_ok.mp h
    obtain ⟨others, hothers, -⟩ := Except.bind_eq_ok.mp hrest
    rcases List.mem_cons.mp ha with rfl | ha
    · exact ⟨found, hfirst⟩
    · exact ih hothers ha

theorem branchOutcomes_eq_ok {branches : List NodeId} {outcomes : List Violations}
    (h : branchOutcomes apply value path branches = .ok outcomes) (hchild : child ∈ branches) :
    ∃ found, apply child value path = .ok found := by
  induction branches generalizing outcomes with
  | nil => cases hchild
  | cons branch rest ih =>
    obtain ⟨found, hbranch, hrest⟩ := Except.bind_eq_ok.mp h
    obtain ⟨others, hothers, -⟩ := Except.bind_eq_ok.mp hrest
    rcases List.mem_cons.mp hchild with rfl | hchild
    · exact ⟨found, hbranch⟩
    · exact ih hothers hchild

theorem failedBranches_eq_ok {branches : List NodeId} {failed : List Violations}
    (h : failedBranches apply value path branches = .ok failed)
    (hchild : branches.head? = some child) : ∃ found, apply child value path = .ok found := by
  cases branches with
  | nil => cases hchild
  | cons branch rest =>
    cases hchild
    obtain ⟨found, hbranch, -⟩ := Except.bind_eq_ok.mp h
    exact ⟨found, hbranch⟩

theorem compositionViolations_eq_ok (hcompels : node.Compels schema child)
    (href : node.refTarget ≠ some child)
    (h : node.compositionViolations schema apply value path = .ok violations) :
    ∃ found, apply child value path = .ok found := by
  obtain ⟨all, hall, h⟩ := Except.bind_eq_ok.mp h
  obtain ⟨any, hany, h⟩ := Except.bind_eq_ok.mp h
  obtain ⟨one, hone, h⟩ := Except.bind_eq_ok.mp h
  obtain ⟨negated, hnegated, h⟩ := Except.bind_eq_ok.mp h
  obtain ⟨conditional, hconditional, -⟩ := Except.bind_eq_ok.mp h
  cases hcompels with
  | ref h => exact absurd h href
  | allOf hchild hboolean =>
    obtain ⟨found, hfound⟩ := collect_eq_ok hall hchild
    exact ⟨found, by simpa [descend, hboolean] using hfound⟩
  | anyOf hchild =>
    obtain ⟨failed, hfailed, -⟩ := Except.bind_eq_ok.mp hany
    exact failedBranches_eq_ok hfailed hchild
  | oneOf hchild =>
    obtain ⟨outcomes, houtcomes, -⟩ := Except.bind_eq_ok.mp hone
    exact branchOutcomes_eq_ok houtcomes hchild
  | negated hchild =>
    rw [notViolations, hchild] at hnegated
    obtain ⟨found, hfound, -⟩ := Except.bind_eq_ok.mp hnegated
    exact ⟨found, hfound⟩
  | condition hchild =>
    rw [conditionViolations, hchild] at hconditional
    obtain ⟨found, hfound, -⟩ := Except.bind_eq_ok.mp hconditional
    exact ⟨found, hfound⟩

theorem Compels.of_ok (hcompels : node.Compels schema child) (hboolean : node.boolean = none)
    (h : node.shownViolations schema options apply value path = .ok violations) :
    ∃ found, apply child value path = .ok found := by
  rw [shownViolations, hboolean] at h
  obtain ⟨referred, hreferred, h⟩ := Except.bind_eq_ok.mp h
  by_cases href : node.refTarget = some child
  · exact ⟨referred, by simpa [refViolations, href] using hreferred⟩
  · obtain ⟨-, -, h⟩ := Except.bind_eq_ok.mp h
    obtain ⟨own, -, h⟩ := Except.bind_eq_ok.mp h
    obtain ⟨inner, -, h⟩ := Except.bind_eq_ok.mp h
    obtain ⟨composed, hcomposed, -⟩ := Except.bind_eq_ok.mp h
    exact compositionViolations_eq_ok hcompels href hcomposed

end SchemaNode

namespace CompiledSchema

/-! ## Circles -/

/-- The one node applies the other one to every value; a boolean node applies none. -/
def Compels (schema : CompiledSchema) (id next : NodeId) : Prop :=
  ∃ node, schema.node? id = some node ∧ node.boolean = none ∧ node.Compels schema next

/-- The root leads into a circle of nodes, each of which applies the next one to every value. -/
def Circular (schema : CompiledSchema) : Prop := LeadsIntoCircle schema.Compels rootId

variable {schema : CompiledSchema} {options : EvaluationOptions} {id : NodeId} {value : Json}
  {path : Path} {violations : Violations}

/-- On a way without an end every budget runs out. -/
theorem evaluateShown_ne_ok (h : LeadsIntoCircle schema.Compels id) (budget : Nat) :
    schema.evaluateShown options budget id value path ≠ .ok violations := by
  induction budget generalizing id violations with
  | zero => nofun
  | succ budget ih =>
    intro hok
    obtain ⟨next, ⟨node, hnode, hboolean, hcompels⟩, hendless⟩ := h.step
    simp only [evaluateShown, hnode] at hok
    obtain ⟨found, hfound⟩ := hcompels.of_ok hboolean hok
    exact ih hendless hfound

/--
A circular schema accepts and rejects nothing: with formats not asserted every instance exceeds the
depth, at each limit. Only a message that is written out on the way there may stop it before, where
it shows an integer that is too long for a text.
-/
theorem circular_has_no_result (hcircular : schema.Circular) (hassert : options.assertFormats = false)
    (instance_ : Json) :
    (∃ pointer, schema.validateShown options instance_ =
        .error (.tooDeep options.maxDepth pointer)) ∨
      schema.validateShown options instance_ = .error .noText ∧
        ∃ there node, schema.Reaches (.root instance_) there ∧
          schema.node? there.id = some node ∧ node.Unshown there.value := by
  cases h : schema.validateShown options instance_ with
  | ok violations => exact absurd h (evaluateShown_ne_ok hcircular _)
  | error fault =>
    rcases tooDeep_or_escapes h with ⟨pointer, rfl⟩ | ⟨there, hreach, hescapes⟩
    · exact .inl ⟨pointer, rfl⟩
    · cases hescapes with
      | expression _ _ hasserted => exact Bool.noConfusion (hassert.symm.trans hasserted)
      | integer hnode hshown => exact .inr ⟨rfl, there, _, hreach, hnode, hshown⟩

/-- Strings that are what they are asked to be: all of this schema is a part of itself. -/
def selfSchema : CompiledSchema where
  nodes := #[{ id := 0, location := "#", value := { types := some [.string] },
               composition := { allOf := [1] } },
             { id := 1, location := "#/allOf/0", ref := some "#", refTarget := some 0 }]
  draft := .latest
  locations := #["#", "#/allOf/0"]
  warnings := []

theorem selfSchema_circular : selfSchema.Circular := by
  have hdown : selfSchema.Compels 0 1 :=
    ⟨_, rfl, rfl, .allOf (List.mem_singleton.mpr rfl) rfl⟩
  have hback : selfSchema.Compels 1 0 := ⟨_, rfl, rfl, .ref rfl⟩
  exact ⟨0, .refl, .head hdown (.single hback)⟩

/-- The default depth is exceeded for a number, and no message on the way needs a text it has not. -/
theorem selfSchema_exceeds_default_depth :
    ∃ pointer, selfSchema.validateShown ⟨1000, false⟩ (.int 7) = .error (.tooDeep 1000 pointer) := by
  rcases @circular_has_no_result selfSchema ⟨1000, false⟩ selfSchema_circular rfl (.int 7) with
    hdeep | ⟨-, there, node, hreach, hnode, hunshown⟩
  · exact hdeep
  · have hnothing : selfSchema.NothingEscapes ⟨1000, false⟩ (.int 7) :=
      nothingEscapes_of_hasText rfl rfl (by decide +kernel)
    exact absurd (.integer hnode hunshown) (hnothing there .noText hreach)

example : selfSchema.validateShown ⟨5, false⟩ (.int (10 ^ 4300)) = .error .noText := by
  decide +kernel

end CompiledSchema

end JsonSchema

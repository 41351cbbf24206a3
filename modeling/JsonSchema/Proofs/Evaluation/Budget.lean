import JsonSchema.Proofs.Evaluation.Depth
import JsonSchema.Proofs.Evaluation.Follow
import JsonSchema.Proofs.Evaluation.Shown

/-!
# Larger budgets

A node that may apply others more levels deep does what it did, but that it is not stopped where it
was too deep.
-/

namespace JsonSchema

def EvaluationOptions.Exceeded (options : EvaluationOptions) (fault : EvaluationFault) : Prop :=
  ∃ pointer, fault = .tooDeep options.maxDepth pointer

namespace CompiledSchema

variable {schema : CompiledSchema} {options options' : EvaluationOptions} {instance_ : Json}

theorem evaluateShown_larger (schema : CompiledSchema)
    (hformats : options.assertFormats = options'.assertFormats) {budget budget' : Nat}
    (h : budget ≤ budget') :
    Apply.Follows options.Exceeded [] (schema.evaluateShown options budget)
      (schema.evaluateShown options' budget') := by
  obtain ⟨more, rfl⟩ := Nat.exists_eq_add_of_le' h
  exact evaluateShown_follows hformats (fun _ _ _ => .stop ⟨_, rfl⟩) budget

theorem validateShown_larger (hformats : options.assertFormats = options'.assertFormats)
    (h : options.maxDepth ≤ options'.maxDepth) :
    (∃ pointer, schema.validateShown options instance_ =
        .error (.tooDeep options.maxDepth pointer)) ∨
      schema.validateShown options instance_ = schema.validateShown options' instance_ := by
  have hbudget : (options.maxDepth + 1).toNat ≤ (options'.maxDepth + 1).toNat := by omega
  rcases (evaluateShown_larger schema hformats hbudget rootId instance_ []).root with
    ⟨_, ⟨pointer, rfl⟩, hdeep⟩ | hsame
  · exact .inl ⟨pointer, hdeep⟩
  · exact .inr hsame

/--
An instance that has its violations with one limit on the depth has the same ones with every larger
limit, and one that is too deep for the larger limit is too deep for the smaller one.
-/
theorem larger_budget_agrees (schema : CompiledSchema) (instance_ : Json) (assertFormats : Bool)
    {least most : Int} (h : least ≤ most) :
    (∀ violations, schema.validateShown ⟨least, assertFormats⟩ instance_ = .ok violations →
        schema.validateShown ⟨most, assertFormats⟩ instance_ = .ok violations) ∧
      ∀ pointer, schema.validateShown ⟨most, assertFormats⟩ instance_ =
          .error (.tooDeep most pointer) →
        ∃ pointer', schema.validateShown ⟨least, assertFormats⟩ instance_ =
          .error (.tooDeep least pointer') := by
  have hlarger : (∃ pointer, schema.validateShown ⟨least, assertFormats⟩ instance_ =
      .error (.tooDeep least pointer)) ∨ schema.validateShown ⟨least, assertFormats⟩ instance_ =
        schema.validateShown ⟨most, assertFormats⟩ instance_ := validateShown_larger rfl h
  rcases hlarger with ⟨pointer, hdeep⟩ | hsame
  · refine ⟨fun violations hok => ?_, fun _ _ => ⟨pointer, hdeep⟩⟩
    exact nomatch hdeep.symm.trans hok
  · refine ⟨fun violations hok => hsame ▸ hok, fun pointer hdeep => ?_⟩
    have hleast := hsame.trans hdeep
    rcases tooDeep_or_escapes hleast with ⟨pointer', hfault⟩ | ⟨there, -, hescapes⟩
    · exact ⟨pointer', hfault ▸ hleast⟩
    · exact Bool.noConfusion hescapes.isOfDepth

/-- What a list of two elements comes to at depth 7 holds at depth 40; depth 1 is too few. -/
theorem listSchema_agrees_at_larger_depths :
    listSchema.validateShown ⟨7, false⟩ (.obj [("next", .obj [("next", .null)])]) = .ok [] ∧
      listSchema.validateShown ⟨40, false⟩ (.obj [("next", .obj [("next", .null)])]) = .ok [] ∧
      ∃ pointer, listSchema.validateShown ⟨1, false⟩ (.obj [("next", .obj [("next", .null)])]) =
        .error (.tooDeep 1 pointer) := by
  have hseven : listSchema.validateShown ⟨7, false⟩ (.obj [("next", .obj [("next", .null)])]) =
      .ok [] := by decide +kernel
  have htwo : listSchema.validateShown ⟨2, false⟩ (.obj [("next", .obj [("next", .null)])]) =
      .error (.tooDeep 2 "/next") := by decide +kernel
  exact ⟨hseven, (larger_budget_agrees listSchema _ false (by decide)).1 _ hseven,
    (larger_budget_agrees listSchema _ false (by decide)).2 _ htwo⟩

end CompiledSchema

end JsonSchema

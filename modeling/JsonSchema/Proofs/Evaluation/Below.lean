import JsonSchema.Proofs.Evaluation.Follow
import JsonSchema.Proofs.Pointer.Text

/-!
# Values below others

What a node comes to does not depend on the place of its value: below a path it has the violations
that it has elsewhere, with that path in front of theirs.
-/

namespace JsonSchema

def Evaluated.under (base : Path) : Evaluated Violations → Evaluated Violations
  | .ok violations => .ok (violations.under base)
  | .error fault => .error (fault.under base)

theorem FollowsBelow.eq_under {base : Path} {x y : Evaluated Violations}
    (h : FollowsBelow (fun _ => False) base (·.under base) x y) : x = Evaluated.under base y := by
  cases h with
  | stop h => exact h.elim
  | fault fault => rfl
  | ok violations => rfl

theorem Evaluated.under_eq_tooDeep {base : Path} {x : Evaluated Violations} {maxDepth : Int} :
    (∃ pointer, Evaluated.under base x = .error (.tooDeep maxDepth pointer)) ↔
      ∃ pointer, x = .error (.tooDeep maxDepth pointer) := by
  constructor
  · rintro ⟨pointer, h⟩
    cases x with
    | ok violations => cases h
    | error fault =>
      cases fault with
      | tooDeep maxDepth' pointer' =>
        cases h
        exact ⟨pointer', rfl⟩
      | _ => cases h
  · rintro ⟨pointer, rfl⟩
    exact ⟨base.pointer ++ pointer, rfl⟩

namespace CompiledSchema

/--
A node has below a path the violations that it has elsewhere, in the same order, with the path in
front of theirs; and it is too deep there, or fails otherwise, where it is or does so elsewhere.
This holds however many levels nodes may apply each other deep.
-/
theorem place_independent (schema : CompiledSchema) (options : EvaluationOptions) (budget : Nat)
    (id : NodeId) (value : Json) (base path : Path) :
    schema.evaluateShown options budget id value (base ++ path) =
        Evaluated.under base (schema.evaluateShown options budget id value path) ∧
      ((∃ pointer, schema.evaluateShown options budget id value (base ++ path) =
          .error (.tooDeep options.maxDepth pointer)) ↔
        ∃ pointer, schema.evaluateShown options budget id value path =
          .error (.tooDeep options.maxDepth pointer)) := by
  have hleast : Apply.Follows (fun _ => False) base (schema.evaluateShown options 0)
      (schema.evaluateShown options 0) := by
    intro id value path
    simp only [evaluateShown, Path.pointer_append]
    exact .fault (.tooDeep options.maxDepth path.pointer)
  have hunder : schema.evaluateShown options budget id value (base ++ path) =
      Evaluated.under base (schema.evaluateShown options budget id value path) := by
    have hfollows := evaluateShown_follows rfl hleast budget id value path
    rw [Nat.zero_add] at hfollows
    exact hfollows.eq_under
  exact ⟨hunder, by rw [hunder, Evaluated.under_eq_tooDeep]⟩

end CompiledSchema

end JsonSchema

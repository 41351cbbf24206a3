import JsonSchema.Evaluation.Shown
import JsonSchema.Proofs.Outcome

/-!
# One evaluation beside another

Two evaluations of a value that stands at different places, or that have different budgets, go step
by step through the same nodes. The first one may stop early; until then the two have the same
violations, but for the place where the value stands.
-/

namespace JsonSchema

def Violation.under (base : Path) (violation : Violation) : Violation :=
  { violation with path := base ++ violation.path }

def Violations.under (base : Path) (violations : Violations) : Violations :=
  violations.map (Violation.under base)

def EvaluationFault.under (base : Path) : EvaluationFault → EvaluationFault
  | .tooDeep maxDepth pointer => .tooDeep maxDepth (base.pointer ++ pointer)
  | .pattern source fault => .pattern source fault
  | .noText => .noText

namespace Violations

variable {base : Path} {violations others : Violations} {outcomes : List Violations}

@[simp] theorem under_nil : Violations.under base [] = [] := rfl

@[simp] theorem under_append :
    Violations.under base (violations ++ others) = violations.under base ++ others.under base :=
  List.map_append

@[simp] theorem isEmpty_under : (violations.under base).isEmpty = violations.isEmpty := by
  cases violations <;> rfl

@[simp] theorem length_under : (violations.under base).length = violations.length :=
  List.length_map _

@[simp] theorem keywords_under :
    (violations.under base).map (·.keyword) = violations.map (·.keyword) :=
  List.map_map

theorem under_root : violations.under [] = violations := List.map_id violations

theorem closest_under :
    SchemaNode.closest (outcomes.map (·.under base)) = (SchemaNode.closest outcomes).under base := by
  cases outcomes with
  | nil => rfl
  | cons first rest =>
    simp only [List.map_cons, SchemaNode.closest]
    induction rest generalizing first with
    | nil => rfl
    | cons next rest ih =>
      simp only [List.map_cons, List.foldl_cons, length_under]
      rw [← ih]
      split <;> rfl

theorem matchedIndices_under :
    SchemaNode.matchedIndices (outcomes.map (·.under base)) = SchemaNode.matchedIndices outcomes := by
  simp [SchemaNode.matchedIndices, List.zipIdx_map, List.filter_map, Function.comp_def]

end Violations

/-! ## Outcomes -/

/--
The first outcome is a fault that may stop it early, or what the second one comes to as well, where
`move` carries results over to the place below `base`.
-/
inductive FollowsBelow {α : Type} (stops : EvaluationFault → Prop) (base : Path) (move : α → α) :
    Evaluated α → Evaluated α → Prop
  | stop {fault : EvaluationFault} {y : Evaluated α} (h : stops fault) :
      FollowsBelow stops base move (.error fault) y
  | fault (fault : EvaluationFault) :
      FollowsBelow stops base move (.error (fault.under base)) (.error fault)
  | ok (a : α) : FollowsBelow stops base move (.ok (move a)) (.ok a)

namespace FollowsBelow

variable {α β : Type} {stops : EvaluationFault → Prop} {base : Path} {move : α → α}
  {move' : β → β} {x y : Evaluated α}

theorem of_eq {a a' : α} (h : a' = move a) :
    FollowsBelow stops base move (Pure.pure a') (Pure.pure a) :=
  h ▸ .ok a

theorem bind {f g : α → Evaluated β} (h : FollowsBelow stops base move x y)
    (hnext : ∀ a, FollowsBelow stops base move' (f (move a)) (g a)) :
    FollowsBelow stops base move' (x >>= f) (y >>= g) := by
  cases h with
  | stop h => exact .stop h
  | fault fault => exact .fault fault
  | ok a => exact hnext a

end FollowsBelow

theorem FollowsBelow.root {stops : EvaluationFault → Prop} {x y : Evaluated Violations}
    (h : FollowsBelow stops [] (·.under []) x y) :
    (∃ fault, stops fault ∧ x = .error fault) ∨ x = y := by
  cases h with
  | stop h => exact .inl ⟨_, h, rfl⟩
  | fault fault =>
    cases fault with
    | tooDeep maxDepth pointer =>
      have hpointer : Path.pointer [] ++ pointer = pointer := String.empty_append
      exact .inr (by rw [EvaluationFault.under, hpointer])
    | _ => exact .inr rfl
  | ok violations => exact .inr (by rw [Violations.under_root])

/-- What the nodes come to below `base`, beside what they come to at the root. -/
def Apply.Follows (stops : EvaluationFault → Prop) (base : Path) (apply apply' : Apply) : Prop :=
  ∀ id value path, FollowsBelow stops base (·.under base) (apply id value (base ++ path))
    (apply' id value path)

/-! ## One node -/

namespace SchemaNode

variable {node : SchemaNode} {schema : CompiledSchema} {value : Json} {path base : Path}
  {stops : EvaluationFault → Prop}

theorem map_violation_under (node : SchemaNode) (failures : List Failure) :
    (failures.map fun failure =>
        node.violation (base ++ path) failure.keyword failure.message) =
      Violations.under base
        (failures.map fun failure => node.violation path failure.keyword failure.message) := by
  rw [Violations.under, List.map_map]
  rfl

theorem collect_follows {α : Type} {check check' : α → Evaluated Violations} {list : List α}
    (h : ∀ a, FollowsBelow stops base (·.under base) (check a) (check' a)) :
    FollowsBelow stops base (·.under base) (collect check list) (collect check' list) := by
  induction list with
  | nil => exact .ok []
  | cons a rest ih => exact (h a).bind fun _ => ih.bind fun _ => .of_eq (by simp)

section

variable {apply apply' : Apply} (happly : Apply.Follows stops base apply apply')

include happly

theorem descend_follows (applicator : Applicator) (child : NodeId) :
    FollowsBelow stops base (·.under base)
      (node.descend schema apply applicator child value (base ++ path))
      (node.descend schema apply' applicator child value path) := by
  unfold descend
  split
  · exact .ok [node.violation path applicator.keyword applicator.message]
  · exact happly child value path

/-! ### Arrays -/

theorem itemViolations_follows (index : Nat) (item : Json) :
    FollowsBelow stops base (·.under base)
      (node.itemViolations schema apply (base ++ path) index item)
      (node.itemViolations schema apply' path index item) := by
  unfold itemViolations
  simp only [List.append_assoc]
  split
  · exact descend_follows happly _ _
  · exact descend_follows happly _ _
  · exact .ok []

theorem countMatches_follows (child : NodeId) (index : Nat) (items : List Json) :
    FollowsBelow stops base (fun count => count)
      (countMatches apply child (base ++ path) index items)
      (countMatches apply' child path index items) := by
  induction items generalizing index with
  | nil => exact .ok 0
  | cons item rest ih =>
    unfold countMatches
    rw [List.append_assoc]
    exact (happly _ _ _).bind fun _ => (ih _).bind fun _ => .of_eq (by simp)

theorem containsViolations_follows (items : List Json) :
    FollowsBelow stops base (·.under base) (node.containsViolations apply (base ++ path) items)
      (node.containsViolations apply' path items) := by
  unfold containsViolations
  split
  · exact .ok []
  · exact (countMatches_follows happly _ 0 items).bind fun _ => .of_eq (node.map_violation_under _)

theorem itemsViolations_follows (items : List Json) :
    FollowsBelow stops base (·.under base)
      (collect (fun (item, index) => node.itemViolations schema apply (base ++ path) index item)
        items.zipIdx)
      (collect (fun (item, index) => node.itemViolations schema apply' path index item)
        items.zipIdx) :=
  collect_follows fun _ => itemViolations_follows happly _ _

/-! ### Objects -/

theorem propertyViolations_follows (name : String) :
    FollowsBelow stops base (·.under base)
      (node.propertyViolations schema apply (base ++ path) name value)
      (node.propertyViolations schema apply' path name value) := by
  have hnamed : ∀ path, FollowsBelow stops base (·.under base)
      (node.namedViolations schema apply name value (base ++ path))
      (node.namedViolations schema apply' name value path) := by
    intro path
    unfold namedViolations
    split
    · exact descend_follows happly _ _
    · exact .ok []
  have hadditional : ∀ covered path, FollowsBelow stops base (·.under base)
      (node.additionalViolations schema apply covered name value (base ++ path))
      (node.additionalViolations schema apply' covered name value path) := by
    intro covered path
    unfold additionalViolations
    split
    · exact descend_follows happly _ _
    · exact .ok []
  unfold propertyViolations
  simp only [List.append_assoc]
  exact (hnamed _).bind fun _ => (collect_follows fun _ => descend_follows happly _ _).bind fun _ =>
    (hadditional _ _).bind fun _ => .of_eq (by simp)

theorem objectViolations_follows (members : Members Json) :
    FollowsBelow stops base (·.under base)
      (node.objectViolations schema apply (base ++ path) members)
      (node.objectViolations schema apply' path members) := by
  have hname : ∀ name, FollowsBelow stops base (·.under base)
      (node.nameViolations schema apply (base ++ path) name)
      (node.nameViolations schema apply' path name) := by
    intro name
    unfold nameViolations
    split
    · exact .ok []
    · exact descend_follows happly _ _
  have hdependent : ∀ trigger child, FollowsBelow stops base (·.under base)
      (node.dependentViolations schema apply (base ++ path) members trigger child)
      (node.dependentViolations schema apply' path members trigger child) := by
    intro trigger child
    unfold dependentViolations
    split
    · exact descend_follows happly _ _
    · exact .ok []
  exact (collect_follows fun _ => propertyViolations_follows happly _).bind fun _ =>
    (collect_follows hname).bind fun _ => (collect_follows fun _ => hdependent _ _).bind fun _ =>
      .of_eq (by simp)

/-! ### Compositions -/

theorem failedBranches_follows (branches : List NodeId) :
    FollowsBelow stops base (List.map (·.under base))
      (failedBranches apply value (base ++ path) branches)
      (failedBranches apply' value path branches) := by
  induction branches with
  | nil => exact .ok []
  | cons branch rest ih =>
    refine (happly _ _ _).bind fun found => ?_
    simp only [Violations.isEmpty_under]
    split
    · exact .ok []
    · split
      · exact .ok [found]
      · refine ih.bind fun others => .of_eq ?_
        simp only [List.isEmpty_map]
        split <;> rfl

theorem branchOutcomes_follows (branches : List NodeId) :
    FollowsBelow stops base (List.map (·.under base))
      (branchOutcomes apply value (base ++ path) branches)
      (branchOutcomes apply' value path branches) := by
  induction branches with
  | nil => exact .ok []
  | cons branch rest ih => exact (happly _ _ _).bind fun _ => ih.bind fun _ => .ok (_ :: _)

theorem anyOfViolations_follows :
    FollowsBelow stops base (·.under base) (node.anyOfViolations apply value (base ++ path))
      (node.anyOfViolations apply' value path) := by
  refine (failedBranches_follows happly _).bind fun failed => ?_
  simp only [List.isEmpty_map, Violations.closest_under]
  split
  · exact .ok []
  · exact .of_eq rfl

theorem oneOfViolations_follows :
    FollowsBelow stops base (·.under base) (node.oneOfViolations apply value (base ++ path))
      (node.oneOfViolations apply' value path) := by
  refine (branchOutcomes_follows happly _).bind fun outcomes => ?_
  simp only [List.isEmpty_map, List.length_map, Violations.matchedIndices_under,
    Violations.closest_under]
  split
  · exact .ok []
  · refine .of_eq ?_
    split <;> rfl

theorem notViolations_follows :
    FollowsBelow stops base (·.under base) (node.notViolations apply value (base ++ path))
      (node.notViolations apply' value path) := by
  unfold notViolations
  split
  · exact .ok []
  · refine (happly _ _ _).bind fun found => .of_eq ?_
    simp only [Violations.isEmpty_under]
    split <;> rfl

theorem conditionViolations_follows :
    FollowsBelow stops base (·.under base)
      (node.conditionViolations schema apply value (base ++ path))
      (node.conditionViolations schema apply' value path) := by
  unfold conditionViolations
  split
  · exact .ok []
  · refine (happly _ _ _).bind fun found => ?_
    simp only [Violations.isEmpty_under]
    split
    · exact descend_follows happly _ _
    · exact .ok []

theorem compositionViolations_follows :
    FollowsBelow stops base (·.under base)
      (node.compositionViolations schema apply value (base ++ path))
      (node.compositionViolations schema apply' value path) :=
  (collect_follows fun _ => descend_follows happly _ _).bind fun _ =>
    (anyOfViolations_follows happly).bind fun _ => (oneOfViolations_follows happly).bind fun _ =>
      (notViolations_follows happly).bind fun _ =>
        (conditionViolations_follows happly).bind fun _ => .of_eq (by simp)

/-! ### Whole nodes -/

theorem refViolations_follows :
    FollowsBelow stops base (·.under base) (node.refViolations apply value (base ++ path))
      (node.refViolations apply' value path) := by
  unfold refViolations
  split
  · exact happly _ _ _
  · exact .ok []

omit happly in
theorem write_follows {write : Evaluated Unit} (h : write = .ok () ∨ write = .error .noText) :
    FollowsBelow stops base (fun done => done) write write := by
  rcases h with rfl | rfl
  · exact .ok ()
  · exact .fault .noText

theorem arrayShown_follows (items : List Json) :
    FollowsBelow stops base (·.under base) (node.arrayShown schema apply (base ++ path) items)
      (node.arrayShown schema apply' path items) := by
  refine (itemsViolations_follows happly items).bind fun inside => ?_
  refine (containsViolations_follows happly items).bind fun contained => ?_
  rw [Violations.keywords_under]
  exact (write_follows (node.writeOut_cases _ _)).bind fun _ => .of_eq (by simp)

theorem innerShown_follows :
    FollowsBelow stops base (·.under base) (node.innerShown schema apply value (base ++ path))
      (node.innerShown schema apply' value path) := by
  cases value with
  | arr items => exact arrayShown_follows happly items
  | obj members => exact objectViolations_follows happly members
  | _ => exact .ok []

omit happly in
theorem ownViolations_follows {options options' : EvaluationOptions}
    (hformats : options.assertFormats = options'.assertFormats) :
    FollowsBelow stops base (·.under base) (node.ownViolations options value (base ++ path))
      (node.ownViolations options' value path) := by
  unfold ownViolations
  rw [hformats]
  cases node.formatFailures options'.assertFormats value with
  | ok failures => exact .of_eq (node.map_violation_under _)
  | error fault => exact .fault (.pattern _ fault)

/-- A node does with one way of applying others what it does with the other way. -/
theorem shownViolations_follows {options options' : EvaluationOptions}
    (hformats : options.assertFormats = options'.assertFormats) :
    FollowsBelow stops base (·.under base)
      (node.shownViolations schema options apply value (base ++ path))
      (node.shownViolations schema options' apply' value path) := by
  unfold shownViolations violations
  cases node.boolean with
  | some b =>
    cases b with
    | true => exact .ok []
    | false => exact .of_eq rfl
  | none =>
    exact (refViolations_follows happly).bind fun _ =>
      (write_follows (node.writeOwn_cases value)).bind fun _ =>
        (ownViolations_follows hformats).bind fun _ => (innerShown_follows happly).bind fun _ =>
          (compositionViolations_follows happly).bind fun _ => .of_eq (by simp)

end

end SchemaNode

/-! ## Whole evaluations -/

/-- Where the nodes that may apply no others follow, so do those with as many levels more. -/
theorem CompiledSchema.evaluateShown_follows {schema : CompiledSchema}
    {options options' : EvaluationOptions} {stops : EvaluationFault → Prop} {base : Path}
    (hformats : options.assertFormats = options'.assertFormats) {least : Nat}
    (hleast : Apply.Follows stops base (schema.evaluateShown options 0)
      (schema.evaluateShown options' least)) (budget : Nat) :
    Apply.Follows stops base (schema.evaluateShown options budget)
      (schema.evaluateShown options' (least + budget)) := by
  induction budget with
  | zero => exact hleast
  | succ budget ih =>
    intro id value path
    rw [← Nat.add_assoc]
    simp only [evaluateShown]
    cases schema.node? id with
    | some node => exact SchemaNode.shownViolations_follows ih hformats
    | none => exact .ok []

end JsonSchema

import JsonSchema.Evaluation.Basic
import JsonSchema.Proofs.Number.Multiple
import JsonSchema.Proofs.Json.Members
import JsonSchema.Proofs.Outcome

/-!
# Evaluations without broken operations

What an evaluation takes from other nodes: it applies the children of a node and no other ones. So
it never asks for a node that is missing, and never divides by zero, where nodes have children
inside the schema and steps above zero.
-/

namespace JsonSchema

namespace SchemaNode

/-- The nodes that a node names in one of its fields. -/
inductive Child (node : SchemaNode) : NodeId → Prop where
  | target {id : NodeId} (h : node.refTarget = some id) : Child node id
  | firstItem {id : NodeId} (h : id ∈ node.array.firstItems) : Child node id
  | items {id : NodeId} (h : node.array.items = some id) : Child node id
  | contains {id : NodeId} (h : node.array.contains = some id) : Child node id
  | property {name : String} {id : NodeId} (h : (name, id) ∈ node.object.properties) :
      Child node id
  | patternProperty {entry : PatternProperty} (h : entry ∈ node.object.patternProperties) :
      Child node entry.node
  | additionalProperties {id : NodeId} (h : node.object.additionalProperties = some id) :
      Child node id
  | propertyNames {id : NodeId} (h : node.object.propertyNames = some id) : Child node id
  | dependentSchema {trigger : String} {id : NodeId}
      (h : (trigger, id) ∈ node.object.dependentSchemas) : Child node id
  | allOf {id : NodeId} (h : id ∈ node.composition.allOf) : Child node id
  | anyOf {id : NodeId} (h : id ∈ node.composition.anyOf) : Child node id
  | oneOf {id : NodeId} (h : id ∈ node.composition.oneOf) : Child node id
  | negated {id : NodeId} (h : node.composition.negated = some id) : Child node id
  | condition {id : NodeId} (h : node.composition.condition = some id) : Child node id
  | consequent {id : NodeId} (h : node.composition.consequent = some id) : Child node id
  | alternative {id : NodeId} (h : node.composition.alternative = some id) : Child node id

/-! ## Only children are applied -/

section

variable {node : SchemaNode} {schema : CompiledSchema} {apply apply' : Apply} {path : Path}
  {value : Json}

theorem descend_congr {child : NodeId} (h : apply child = apply' child) (applicator : Applicator) :
    node.descend schema apply applicator child value path =
      node.descend schema apply' applicator child value path := by
  rw [descend, descend, h]

theorem collect_congr {α : Type} {check check' : α → Evaluated Violations} {list : List α}
    (h : ∀ a ∈ list, check a = check' a) : collect check list = collect check' list := by
  induction list with
  | nil => rfl
  | cons a rest ih =>
    rw [List.forall_mem_cons] at h
    rw [collect, collect, h.1, ih h.2]

theorem countMatches_congr {child : NodeId} (h : apply child = apply' child) (index : Nat)
    (items : List Json) :
    countMatches apply child path index items = countMatches apply' child path index items := by
  induction items generalizing index with
  | nil => rfl
  | cons item rest ih => rw [countMatches, countMatches, h, ih]

theorem failedBranches_congr {branches : List NodeId}
    (h : ∀ branch ∈ branches, apply branch = apply' branch) :
    failedBranches apply value path branches = failedBranches apply' value path branches := by
  induction branches with
  | nil => rfl
  | cons branch rest ih =>
    rw [List.forall_mem_cons] at h
    simp only [failedBranches, h.1, ih h.2]

theorem branchOutcomes_congr {branches : List NodeId}
    (h : ∀ branch ∈ branches, apply branch = apply' branch) :
    branchOutcomes apply value path branches = branchOutcomes apply' value path branches := by
  induction branches with
  | nil => rfl
  | cons branch rest ih =>
    rw [List.forall_mem_cons] at h
    rw [branchOutcomes, branchOutcomes, h.1, ih h.2]

variable (h : ∀ child, node.Child child → apply child = apply' child)

include h

theorem arrayViolations_congr (items : List Json) :
    node.arrayViolations schema apply path items =
      node.arrayViolations schema apply' path items := by
  have hitem : ∀ entry ∈ items.zipIdx, node.itemViolations schema apply path entry.2 entry.1 =
      node.itemViolations schema apply' path entry.2 entry.1 := by
    intro entry _
    unfold itemViolations
    split
    case h_1 child hchild => exact descend_congr (h child (.firstItem (List.mem_of_getElem? hchild))) _
    case h_2 child _ hchild => exact descend_congr (h child (.items hchild)) _
    case h_3 => rfl
  have hcontains : node.containsViolations apply path items =
      node.containsViolations apply' path items := by
    unfold containsViolations
    split
    case h_1 => rfl
    case h_2 child hchild => rw [countMatches_congr (h child (.contains hchild))]
  rw [arrayViolations, arrayViolations, hcontains]
  exact congrArg (· >>= _) (collect_congr hitem)

theorem propertyViolations_congr (name : String) :
    node.propertyViolations schema apply path name value =
      node.propertyViolations schema apply' path name value := by
  have hnamed : ∀ valuePath, node.namedViolations schema apply name value valuePath =
      node.namedViolations schema apply' name value valuePath := by
    intro valuePath
    unfold namedViolations
    split
    case h_1 child hchild =>
      exact descend_congr (h child (.property (Members.mem_of_get? hchild))) _
    case h_2 => rfl
  have hmatched : ∀ valuePath,
      node.patternViolations schema apply (node.object.patternProperties.filter (·.pattern.isIn name))
        value valuePath =
      node.patternViolations schema apply' (node.object.patternProperties.filter (·.pattern.isIn name))
        value valuePath := by
    intro valuePath
    refine collect_congr fun entry hentry => ?_
    exact descend_congr (h _ (.patternProperty (List.mem_of_mem_filter hentry))) _
  have hadditional : ∀ covered valuePath,
      node.additionalViolations schema apply covered name value valuePath =
        node.additionalViolations schema apply' covered name value valuePath := by
    intro covered valuePath
    unfold additionalViolations
    split
    case h_1 child hchild => exact descend_congr (h child (.additionalProperties hchild)) _
    case h_2 => rfl
  simp only [propertyViolations, hnamed, hmatched, hadditional]

theorem objectViolations_congr (members : Members Json) :
    node.objectViolations schema apply path members =
      node.objectViolations schema apply' path members := by
  have hinside : ∀ member ∈ members,
      node.propertyViolations schema apply path member.1 member.2 =
        node.propertyViolations schema apply' path member.1 member.2 :=
    fun member _ => propertyViolations_congr h member.1
  have hnames : ∀ name ∈ members.names, node.nameViolations schema apply path name =
      node.nameViolations schema apply' path name := by
    intro name _
    unfold nameViolations
    split
    case h_1 => rfl
    case h_2 child hchild => exact descend_congr (h child (.propertyNames hchild)) _
  have hdependent : ∀ entry ∈ node.object.dependentSchemas,
      node.dependentViolations schema apply path members entry.1 entry.2 =
        node.dependentViolations schema apply' path members entry.1 entry.2 := by
    intro entry hentry
    unfold dependentViolations
    split
    case isTrue => exact descend_congr (h entry.2 (.dependentSchema hentry)) _
    case isFalse => rfl
  simp only [objectViolations, collect_congr hinside, collect_congr hnames,
    collect_congr hdependent]

theorem compositionViolations_congr :
    node.compositionViolations schema apply value path =
      node.compositionViolations schema apply' value path := by
  have hall : ∀ child ∈ node.composition.allOf,
      node.descend schema apply (.plain "allOf") child value path =
        node.descend schema apply' (.plain "allOf") child value path :=
    fun child hchild => descend_congr (h child (.allOf hchild)) _
  have hany : node.anyOfViolations apply value path = node.anyOfViolations apply' value path := by
    simp only [anyOfViolations, failedBranches_congr fun branch hbranch => h branch (.anyOf hbranch)]
  have hone : node.oneOfViolations apply value path = node.oneOfViolations apply' value path := by
    simp only [oneOfViolations, branchOutcomes_congr fun branch hbranch => h branch (.oneOf hbranch)]
  have hnot : node.notViolations apply value path = node.notViolations apply' value path := by
    unfold notViolations
    split
    case h_1 => rfl
    case h_2 child hchild => rw [h child (.negated hchild)]
  have hcondition : node.conditionViolations schema apply value path =
      node.conditionViolations schema apply' value path := by
    unfold conditionViolations
    split
    case h_1 => rfl
    case h_2 child hchild =>
      rw [h child (.condition hchild)]
      refine congrArg _ (funext fun violations => ?_)
      cases violations.isEmpty with
      | true =>
        simp only [if_true]
        cases hbranch : node.composition.consequent with
        | none => rfl
        | some branch => exact descend_congr (h branch (.consequent hbranch)) _
      | false =>
        simp only [Bool.false_eq_true, if_false]
        cases hbranch : node.composition.alternative with
        | none => rfl
        | some branch => exact descend_congr (h branch (.alternative hbranch)) _
  simp only [compositionViolations, collect_congr hall, hany, hone, hnot, hcondition]

theorem violations_congr (options : EvaluationOptions) :
    node.violations schema options apply value path =
      node.violations schema options apply' value path := by
  have hreferred : node.refViolations apply value path = node.refViolations apply' value path := by
    unfold refViolations
    split
    case h_1 target htarget => rw [h target (.target htarget)]
    case h_2 => rfl
  have hinner : node.innerViolations schema apply value path =
      node.innerViolations schema apply' value path := by
    unfold innerViolations
    split
    case h_1 items => exact arrayViolations_congr h items
    case h_2 members => exact objectViolations_congr h members
    case h_3 => rfl
  simp only [SchemaNode.violations, hreferred, hinner, compositionViolations_congr h]

end

/-! ## The closest branch -/

section

variable {node : SchemaNode} {apply : Apply} {path : Path} {value : Json}
  {branches : List NodeId} {violations : Violations}

theorem closest_spec {outcomes : List Violations} (h : outcomes ≠ []) :
    closest outcomes ∈ outcomes ∧
      ∀ outcome ∈ outcomes, (closest outcomes).length ≤ outcome.length := by
  obtain ⟨first, rest, rfl⟩ := List.exists_cons_of_ne_nil h
  rw [closest]
  clear h
  induction rest generalizing first with
  | nil => simp
  | cons next rest ih =>
    rw [List.foldl_cons]
    obtain ⟨hmem, hle⟩ := ih (if next.length < first.length then next else first)
    simp only [List.forall_mem_cons] at hle ⊢
    constructor
    · split at hmem <;> grind
    · obtain ⟨hbest, hrest⟩ := hle
      split at hbest <;> grind

/-- The violations of a branch that fails with as few of them as any branch. -/
structure ClosestBranch (apply : Apply) (value : Json) (path : Path) (branches : List NodeId)
    (found : Violations) : Prop where
  outcome : ∃ branch ∈ branches, apply branch value path = .ok found
  fails : found ≠ []
  least : ∀ branch ∈ branches, ∃ other, apply branch value path = .ok other ∧
    found.length ≤ other.length

/-- Nothing, or a violation of the keyword and behind it those of the closest branch. -/
def Reports (apply : Apply) (value : Json) (path : Path) (branches : List NodeId)
    (violations : Violations) : Prop :=
  violations = [] ∨ ∃ first found, violations = first :: found ∧
    ClosestBranch apply value path branches found

def Outcomes (apply : Apply) (value : Json) (path : Path) (branches : List NodeId)
    (outcomes : List Violations) : Prop :=
  List.Forall₂ (fun branch found => apply branch value path = .ok found) branches outcomes

theorem Outcomes.closest {outcomes : List Violations}
    (h : Outcomes apply value path branches outcomes) (hne : outcomes ≠ [])
    (hfails : ∀ outcome ∈ outcomes, outcome ≠ []) :
    ClosestBranch apply value path branches (closest outcomes) := by
  obtain ⟨hmem, hle⟩ := closest_spec hne
  refine ⟨?_, hfails _ hmem, fun branch hbranch => ?_⟩
  · obtain ⟨i, hi, hget⟩ := List.mem_iff_getElem.mp hmem
    have hlength := List.Forall₂.length_eq h
    refine ⟨branches[i], List.getElem_mem (by omega), ?_⟩
    rw [← hget]
    exact List.Forall₂.get h (by omega) hi
  · obtain ⟨i, hi, rfl⟩ := List.mem_iff_getElem.mp hbranch
    have hlength := List.Forall₂.length_eq h
    exact ⟨outcomes[i], List.Forall₂.get h hi (by omega), hle _ (List.getElem_mem _)⟩

theorem outcomes_of_failedBranches {failed : List Violations}
    (h : failedBranches apply value path branches = .ok failed) (hne : failed ≠ []) :
    Outcomes apply value path branches failed ∧ ∀ outcome ∈ failed, outcome ≠ [] := by
  induction branches generalizing failed with
  | nil =>
    rw [failedBranches] at h
    exact absurd (Except.ok.inj h).symm hne
  | cons branch rest ih =>
    simp only [failedBranches, Except.bind_eq_ok] at h
    obtain ⟨found, hfound, h⟩ := h
    split at h
    case isTrue => exact absurd (Except.pure_eq_ok.mp h).symm hne
    case isFalse hfails =>
      rw [List.isEmpty_iff] at hfails
      split at h
      case h_1 =>
        rw [← Except.pure_eq_ok.mp h]
        exact ⟨.cons hfound .nil, by simpa using hfails⟩
      case h_2 =>
        obtain ⟨others, hothers, h⟩ := Except.bind_eq_ok.mp h
        rw [Except.pure_eq_ok] at h
        split at h
        case isTrue => exact absurd h.symm hne
        case isFalse hothersNe =>
          rw [List.isEmpty_iff] at hothersNe
          obtain ⟨hrest, hrestFails⟩ := ih hothers hothersNe
          rw [← h]
          exact ⟨.cons hfound hrest, List.forall_mem_cons.mpr ⟨hfails, hrestFails⟩⟩

theorem outcomes_of_branchOutcomes {outcomes : List Violations}
    (h : branchOutcomes apply value path branches = .ok outcomes) :
    Outcomes apply value path branches outcomes := by
  induction branches generalizing outcomes with
  | nil =>
    rw [branchOutcomes] at h
    rw [← Except.ok.inj h]
    exact .nil
  | cons branch rest ih =>
    simp only [branchOutcomes, Except.bind_eq_ok, Except.pure_eq_ok] at h
    obtain ⟨found, hfound, others, hothers, rfl⟩ := h
    exact .cons hfound (ih hothers)

theorem anyOfViolations_reports (h : node.anyOfViolations apply value path = .ok violations) :
    Reports apply value path node.composition.anyOf violations := by
  simp only [anyOfViolations, Except.bind_eq_ok] at h
  obtain ⟨failed, hfailed, h⟩ := h
  split at h
  case isTrue => exact .inl (Except.pure_eq_ok.mp h).symm
  case isFalse hne =>
    rw [List.isEmpty_iff] at hne
    obtain ⟨houtcomes, hfails⟩ := outcomes_of_failedBranches hfailed hne
    exact .inr ⟨_, _, (Except.pure_eq_ok.mp h).symm, houtcomes.closest hne hfails⟩

theorem matchedIndices_eq_nil {outcomes : List Violations} :
    matchedIndices outcomes = [] ↔ ∀ outcome ∈ outcomes, outcome ≠ [] := by
  rw [matchedIndices, List.map_eq_nil_iff, List.filter_eq_nil_iff]
  constructor
  · intro h outcome houtcome hnil
    obtain ⟨i, hi⟩ := List.mem_iff_getElem?.mp houtcome
    have := h (outcome, i) (List.mk_mem_zipIdx_iff_getElem?.mpr hi)
    simp [hnil] at this
  · rintro h ⟨outcome, i⟩ hmem
    have := h outcome (List.mem_of_getElem? (List.mk_mem_zipIdx_iff_getElem?.mp hmem))
    simpa using this

theorem oneOfViolations_reports (h : node.oneOfViolations apply value path = .ok violations) :
    Reports apply value path node.composition.oneOf violations ∨
      (∃ branch ∈ node.composition.oneOf, apply branch value path = .ok []) ∧
        ∃ first, violations = [first] := by
  simp only [oneOfViolations, Except.bind_eq_ok] at h
  obtain ⟨outcomes, houtcomes, h⟩ := h
  replace houtcomes := outcomes_of_branchOutcomes houtcomes
  split at h
  case isTrue => exact .inl (.inl (Except.pure_eq_ok.mp h).symm)
  case isFalse hneither =>
    rw [Bool.or_eq_true, List.isEmpty_iff, not_or] at hneither
    rw [Except.pure_eq_ok] at h
    split at h
    case isTrue hnone =>
      have hfails := matchedIndices_eq_nil.mp (List.isEmpty_iff.mp hnone)
      exact .inl (.inr ⟨_, _, h.symm, houtcomes.closest hneither.1 hfails⟩)
    case isFalse hsome =>
      rw [List.isEmpty_iff, matchedIndices_eq_nil] at hsome
      push Not at hsome
      obtain ⟨outcome, hmem, rfl⟩ := hsome
      obtain ⟨i, hi, hget⟩ := List.mem_iff_getElem.mp hmem
      have hlength := List.Forall₂.length_eq houtcomes
      refine .inr ⟨⟨node.composition.oneOf[i], List.getElem_mem (by omega), ?_⟩, _, h.symm⟩
      rw [← hget]
      exact List.Forall₂.get houtcomes (by omega) hi

end

/-! ## Guarded evaluations -/

def dividesSafely (node : SchemaNode) (value : Json) : Bool :=
  match value with
  | .num _ => node.number.multipleOf.all (·.isDivisor)
  | _ => true

end SchemaNode

namespace CompiledSchema

/-- An evaluation that gives `broken` for a missing node and for a division by zero. -/
def guarded (schema : CompiledSchema) (options : EvaluationOptions)
    (broken : Evaluated Violations) : (budget : Nat) → Apply
  | 0 => fun _ _ path => .error (.tooDeep options.maxDepth path.pointer)
  | budget + 1 => fun id value path =>
    match schema.node? id with
    | some node =>
      if node.dividesSafely value then
        node.violations schema options (schema.guarded options broken budget) value path
      else broken
    | none => broken

theorem guarded_eq_evaluate {schema : CompiledSchema}
    (hchildren : ∀ id node, schema.node? id = some node → ∀ child, node.Child child →
      child < schema.nodes.size)
    (hsteps : ∀ id node, schema.node? id = some node → ∀ step ∈ node.number.multipleOf,
      0 < step.value)
    (options : EvaluationOptions) (broken : Evaluated Violations) (budget : Nat) {id : NodeId}
    (hid : id < schema.nodes.size) :
    schema.guarded options broken budget id = schema.evaluate options budget id := by
  induction budget generalizing id with
  | zero => rfl
  | succ budget ih =>
    have hnode : schema.node? id = some schema.nodes[id] := Array.getElem?_eq_getElem hid
    funext value path
    have hsafe : schema.nodes[id].dividesSafely value = true := by
      unfold SchemaNode.dividesSafely
      split
      case h_1 =>
        rw [Option.all_eq_true]
        exact fun step hstep => Number.isDivisor_of_pos (hsteps id _ hnode step hstep)
      case h_2 => rfl
    rw [guarded, evaluate]
    simp only [hnode, hsafe, if_true]
    exact SchemaNode.violations_congr (fun child hchild => ih (hchildren id _ hnode child hchild))
      options

end CompiledSchema

end JsonSchema

import JsonSchema.Proofs.Evaluation.Checks
import JsonSchema.Proofs.Outcome

/-!
# An evaluation decides what a schema asks

One statement for each part of an evaluation: if it comes to an end, it finds nothing exactly when
the part's keywords hold. The last one says so of whole nodes.
-/

namespace JsonSchema

/-- Wherever `apply` comes to an end, it finds nothing exactly when `sat` holds. -/
def Decides (apply : Apply) (sat : NodeId → Json → Prop) : Prop :=
  ∀ id value path violations, apply id value path = .ok violations →
    (violations = [] ↔ sat id value)

def RefusesFalse (schema : CompiledSchema) (sat : NodeId → Json → Prop) : Prop :=
  ∀ id node, schema.node? id = some node → node.boolean = some false → ∀ value, ¬ sat id value

namespace SchemaNode

variable {node : SchemaNode} {schema : CompiledSchema} {apply : Apply}
  {sat : NodeId → Json → Prop} {path : Path} {violations : Violations}

/-! ## Applying other nodes -/

theorem descend_eq_nil (hd : Decides apply sat) (hf : RefusesFalse schema sat)
    {applicator : Applicator} {child : NodeId} {value : Json}
    (h : node.descend schema apply applicator child value path = .ok violations) :
    violations = [] ↔ sat child value := by
  unfold descend at h
  split at h
  case isTrue hfalse =>
    rw [beq_iff_eq, Option.bind_eq_some_iff] at hfalse
    obtain ⟨found, hfound, hbool⟩ := hfalse
    rw [← Except.ok.inj h]
    simpa using hf child found hfound hbool value
  case isFalse => exact hd _ _ _ _ h

theorem collect_eq_nil {α : Type} {check : α → Evaluated Violations} {holds : α → Prop}
    {list : List α} (hcheck : ∀ a ∈ list, ∀ found, check a = .ok found → (found = [] ↔ holds a))
    (h : collect check list = .ok violations) : violations = [] ↔ ∀ a ∈ list, holds a := by
  induction list generalizing violations with
  | nil => simp_all [collect]
  | cons a rest ih =>
    simp only [collect, Except.bind_eq_ok, Except.pure_eq_ok] at h
    obtain ⟨first, hfirst, others, hothers, rfl⟩ := h
    rw [List.append_eq_nil_iff, List.forall_mem_cons, hcheck a List.mem_cons_self _ hfirst,
      ih (fun b hb => hcheck b (List.mem_cons_of_mem _ hb)) hothers]

/-! ## Arrays -/

theorem itemViolations_eq_nil (hd : Decides apply sat) (hf : RefusesFalse schema sat)
    {index : Nat} {item : Json}
    (h : node.itemViolations schema apply path index item = .ok violations) :
    violations = [] ↔ (∀ child ∈ node.array.firstItems[index]?, sat child item) ∧
      (node.array.firstItems.length ≤ index → ∀ child ∈ node.array.items, sat child item) := by
  unfold itemViolations at h
  cases hfirst : node.array.firstItems[index]? with
  | some child =>
    have hlt : index < node.array.firstItems.length := (List.getElem?_eq_some_iff.mp hfirst).1
    rw [hfirst] at h
    rw [descend_eq_nil hd hf h]
    simp [Nat.not_le.mpr hlt]
  | none =>
    have hle : node.array.firstItems.length ≤ index := List.getElem?_eq_none_iff.mp hfirst
    rw [hfirst] at h
    cases hitems : node.array.items with
    | some child =>
      rw [hitems] at h
      rw [descend_eq_nil hd hf h]
      simp [hle]
    | none =>
      rw [hitems] at h
      simp [← Except.ok.inj h]

theorem countMatches_eq (hd : Decides apply sat) {child : NodeId} {index : Nat}
    {items : List Json} {count : Nat}
    (h : countMatches apply child path index items = .ok count) :
    count = countHolding sat child items := by
  induction items generalizing index count with
  | nil => simp_all [countMatches, countHolding]
  | cons item rest ih =>
    simp only [countMatches, Except.bind_eq_ok, Except.pure_eq_ok] at h
    obtain ⟨found, hfound, others, hothers, rfl⟩ := h
    have hitem := hd _ _ _ _ hfound
    rw [ih hothers, countHolding, countHolding, List.countP_cons, Nat.add_comm]
    by_cases hsat : sat child item
    · simp [hsat, hitem.mpr hsat]
    · simp [hsat, mt hitem.mp hsat]

theorem containsFailures_eq_nil (keywords : ArrayKeywords) (count : Nat) :
    containsFailures keywords count = [] ↔ keywords.minContains.getD 1 ≤ count ∧
      ∀ limit ∈ keywords.maxContains, count ≤ limit := by
  simp only [containsFailures, List.append_eq_nil_iff, failLimit_eq_nil, decide_eq_false_iff_not,
    not_lt]
  cases keywords.minContains <;> simp [failIf_eq_nil, Nat.one_le_iff_ne_zero]

theorem containsViolations_eq_nil (hd : Decides apply sat) {items : List Json}
    (h : node.containsViolations apply path items = .ok violations) :
    violations = [] ↔ ∀ child ∈ node.array.contains,
      node.array.minContains.getD 1 ≤ countHolding sat child items ∧
        ∀ limit ∈ node.array.maxContains, countHolding sat child items ≤ limit := by
  unfold containsViolations at h
  cases hcontains : node.array.contains with
  | none =>
    rw [hcontains] at h
    simp [← Except.ok.inj h]
  | some child =>
    simp only [hcontains, Except.bind_eq_ok, Except.pure_eq_ok] at h
    obtain ⟨count, hcount, rfl⟩ := h
    rw [List.map_eq_nil_iff, containsFailures_eq_nil, countMatches_eq hd hcount]
    simp

theorem arrayViolations_eq_nil (hd : Decides apply sat) (hf : RefusesFalse schema sat)
    {items : List Json} (hown : node.array.check items = [])
    (h : node.arrayViolations schema apply path items = .ok violations) :
    violations = [] ↔ node.array.Holds sat items := by
  simp only [arrayViolations, Except.bind_eq_ok, Except.pure_eq_ok] at h
  obtain ⟨inside, hinside, contained, hcontained, rfl⟩ := h
  have hitems := collect_eq_nil (fun a _ found hfound => itemViolations_eq_nil hd hf hfound) hinside
  rw [List.append_eq_nil_iff, hitems, containsViolations_eq_nil hd hcontained]
  rw [ArrayKeywords.check_eq_nil] at hown
  obtain ⟨hmin, hmax, hunique⟩ := hown
  simp only [List.mem_zipIdx_iff_getElem?, Prod.forall]
  constructor
  · rintro ⟨heach, hcount⟩
    refine ⟨hmin, hmax, hunique, ?_, ?_, fun c hc => (hcount c hc).1, fun c hc => (hcount c hc).2⟩
    · intro i child hchild item hitem
      exact (heach item i hitem).1 child hchild
    · intro child hchild item hitem
      obtain ⟨i, hi⟩ := List.mem_iff_getElem?.mp hitem
      rw [List.getElem?_drop] at hi
      exact (heach item _ hi).2 (Nat.le_add_right _ _) child hchild
  · rintro ⟨-, -, -, hfirst, hrest, hleast, hmost⟩
    refine ⟨fun item i hitem => ⟨fun child hchild => hfirst i child hchild item hitem, ?_⟩,
      fun c hc => ⟨hleast c hc, hmost c hc⟩⟩
    intro hle child hchild
    refine hrest child hchild item (List.mem_iff_getElem?.mpr ⟨i - node.array.firstItems.length, ?_⟩)
    rwa [List.getElem?_drop, Nat.add_sub_cancel' hle]

/-! ## Objects -/

theorem namedViolations_eq_nil (hd : Decides apply sat) (hf : RefusesFalse schema sat)
    {name : String} {value : Json}
    (h : node.namedViolations schema apply name value path = .ok violations) :
    violations = [] ↔ ∀ child ∈ node.object.properties.get? name, sat child value := by
  unfold namedViolations at h
  cases hown : node.object.properties.get? name with
  | none =>
    rw [hown] at h
    simp [← Except.ok.inj h]
  | some child =>
    rw [hown] at h
    simpa using descend_eq_nil hd hf h

theorem additionalViolations_eq_nil (hd : Decides apply sat) (hf : RefusesFalse schema sat)
    {covered : Bool} {name : String} {value : Json}
    (h : node.additionalViolations schema apply covered name value path = .ok violations) :
    violations = [] ↔
      (¬ covered = true → ∀ child ∈ node.object.additionalProperties, sat child value) := by
  unfold additionalViolations at h
  split at h
  case h_1 child hadditional => simpa [hadditional] using descend_eq_nil hd hf h
  case h_2 hnone =>
    simp only [← Except.ok.inj h, true_iff, Bool.not_eq_true]
    intro hcovered child hchild
    exact (hnone child hcovered hchild).elim

theorem covered_iff (keywords : ObjectKeywords) (name : String) :
    (keywords.properties.has name ||
      !(keywords.patternProperties.filter (·.pattern.isIn name)).isEmpty) = true ↔
      ¬ keywords.IsAdditional name := by
  simp only [ObjectKeywords.IsAdditional, Members.has, Bool.or_eq_true, Bool.not_eq_true',
    Option.isSome_iff_ne_none, List.isEmpty_eq_false_iff, ne_eq, List.filter_eq_nil_iff,
    Bool.not_eq_true]
  tauto

theorem propertyViolations_eq_nil (hd : Decides apply sat) (hf : RefusesFalse schema sat)
    {name : String} {value : Json}
    (h : node.propertyViolations schema apply path name value = .ok violations) :
    violations = [] ↔ (∀ child ∈ node.object.properties.get? name, sat child value) ∧
      (∀ entry ∈ node.object.patternProperties, entry.pattern.isIn name = true →
        sat entry.node value) ∧
      (node.object.IsAdditional name → ∀ child ∈ node.object.additionalProperties,
        sat child value) := by
  simp only [propertyViolations, patternViolations, Except.bind_eq_ok, Except.pure_eq_ok] at h
  obtain ⟨named, hnamed, matched, hmatched, additional, hadditional, rfl⟩ := h
  have hmatched' := collect_eq_nil (fun a _ found hfound => descend_eq_nil hd hf hfound) hmatched
  simp only [List.mem_filter, and_imp] at hmatched'
  rw [List.append_eq_nil_iff, List.append_eq_nil_iff, namedViolations_eq_nil hd hf hnamed,
    hmatched', additionalViolations_eq_nil hd hf hadditional, covered_iff, not_not, and_assoc]

theorem nameViolations_eq_nil (hd : Decides apply sat) (hf : RefusesFalse schema sat)
    {name : String} (h : node.nameViolations schema apply path name = .ok violations) :
    violations = [] ↔ ∀ child ∈ node.object.propertyNames, sat child (.str name) := by
  unfold nameViolations at h
  cases hnames : node.object.propertyNames with
  | none =>
    rw [hnames] at h
    simp [← Except.ok.inj h]
  | some child =>
    rw [hnames] at h
    simpa using descend_eq_nil hd hf h

theorem dependentViolations_eq_nil (hd : Decides apply sat) (hf : RefusesFalse schema sat)
    {members : Members Json} {trigger : String} {child : NodeId}
    (h : node.dependentViolations schema apply path members trigger child = .ok violations) :
    violations = [] ↔ (members.has trigger = true → sat child (.obj members)) := by
  unfold dependentViolations at h
  split at h
  case isTrue hhas => simpa [hhas] using descend_eq_nil hd hf h
  case isFalse hhas => simp [← Except.ok.inj h, hhas]

theorem objectViolations_eq_nil (hd : Decides apply sat) (hf : RefusesFalse schema sat)
    {members : Members Json} (hown : node.object.check members = [])
    (h : node.objectViolations schema apply path members = .ok violations) :
    violations = [] ↔ node.object.Holds sat members := by
  simp only [objectViolations, Except.bind_eq_ok, Except.pure_eq_ok] at h
  obtain ⟨inside, hinside, names, hnames, dependent, hdependent, rfl⟩ := h
  have hinside' := collect_eq_nil
    (fun a _ found hfound => propertyViolations_eq_nil hd hf hfound) hinside
  have hnames' := collect_eq_nil (fun a _ found hfound => nameViolations_eq_nil hd hf hfound) hnames
  have hdependent' := collect_eq_nil
    (fun a _ found hfound => dependentViolations_eq_nil hd hf hfound) hdependent
  rw [List.append_eq_nil_iff, List.append_eq_nil_iff, hinside', hnames', hdependent']
  rw [ObjectKeywords.check_eq_nil] at hown
  obtain ⟨hrequired, hmin, hmax, hlists⟩ := hown
  simp only [Prod.forall]
  constructor
  · rintro ⟨⟨heach, hname⟩, hschemas⟩
    exact ⟨hrequired, hmin, hmax, hlists, fun n v hm => (heach n v hm).1,
      fun n v hm => (heach n v hm).2.1, fun n v hm => (heach n v hm).2.2,
      fun child hchild n hn => hname n hn child hchild, hschemas⟩
  · rintro ⟨-, -, -, -, hproperties, hpatterns, hadditional, hname, hschemas⟩
    exact ⟨⟨fun n v hm => ⟨hproperties n v hm, hpatterns n v hm, hadditional n v hm⟩,
      fun n hn child hchild => hname child hchild n hn⟩, hschemas⟩

/-! ## Compositions -/

theorem failedBranches_eq_nil (hd : Decides apply sat) {value : Json} {branches : List NodeId}
    {failed : List Violations} (h : failedBranches apply value path branches = .ok failed) :
    failed = [] ↔ (branches ≠ [] → ∃ child ∈ branches, sat child value) := by
  induction branches generalizing failed with
  | nil => simp_all [failedBranches]
  | cons branch rest ih =>
    simp only [failedBranches, Except.bind_eq_ok] at h
    obtain ⟨found, hfound, h⟩ := h
    have hbranch := hd _ _ _ _ hfound
    by_cases hempty : found = []
    · subst hempty
      simp_all [Except.pure_eq_ok]
    · have hnot : ¬ sat branch value := mt hbranch.mpr hempty
      simp only [List.isEmpty_iff, hempty, if_false] at h
      cases rest with
      | nil =>
        rw [Except.pure_eq_ok] at h
        simp [← h, hnot]
      | cons next more =>
        simp only [Except.bind_eq_ok, Except.pure_eq_ok] at h
        obtain ⟨others, hothers, rfl⟩ := h
        have := ih hothers
        by_cases hnone : others = [] <;> simp_all

theorem anyOfViolations_eq_nil (hd : Decides apply sat) {value : Json}
    (h : node.anyOfViolations apply value path = .ok violations) :
    violations = [] ↔ (node.composition.anyOf ≠ [] →
      ∃ child ∈ node.composition.anyOf, sat child value) := by
  simp only [anyOfViolations, Except.bind_eq_ok] at h
  obtain ⟨failed, hfailed, h⟩ := h
  rw [← failedBranches_eq_nil hd hfailed]
  by_cases hempty : failed = []
  · simp_all [Except.pure_eq_ok]
  · simp only [List.isEmpty_iff, hempty, if_false, Except.pure_eq_ok] at h
    simp [← h, hempty]

open Classical in
theorem branchOutcomes_count (hd : Decides apply sat) {value : Json} {branches : List NodeId}
    {outcomes : List Violations} (h : branchOutcomes apply value path branches = .ok outcomes) :
    outcomes.length = branches.length ∧
      outcomes.countP (·.isEmpty) = branches.countP fun child => decide (sat child value) := by
  induction branches generalizing outcomes with
  | nil => simp_all [branchOutcomes]
  | cons branch rest ih =>
    simp only [branchOutcomes, Except.bind_eq_ok, Except.pure_eq_ok] at h
    obtain ⟨found, hfound, others, hothers, rfl⟩ := h
    have hbranch := hd _ _ _ _ hfound
    obtain ⟨hlength, hcount⟩ := ih hothers
    refine ⟨by simp [hlength], ?_⟩
    rw [List.countP_cons, List.countP_cons, hcount]
    by_cases hsat : sat branch value
    · simp [hsat, hbranch.mpr hsat]
    · simp [hsat, mt hbranch.mp hsat]

theorem length_matchedIndices (outcomes : List Violations) :
    (matchedIndices outcomes).length = outcomes.countP (·.isEmpty) := by
  rw [matchedIndices, List.length_map, ← List.countP_eq_length_filter]
  conv_rhs => rw [← List.zipIdx_map_fst 0 outcomes, List.countP_map]
  rfl

open Classical in
theorem oneOfViolations_eq_nil (hd : Decides apply sat) {value : Json}
    (h : node.oneOfViolations apply value path = .ok violations) :
    violations = [] ↔ (node.composition.oneOf ≠ [] →
      node.composition.oneOf.countP (fun child => decide (sat child value)) = 1) := by
  simp only [oneOfViolations, Except.bind_eq_ok] at h
  obtain ⟨outcomes, houtcomes, h⟩ := h
  obtain ⟨hlength, hcount⟩ := branchOutcomes_count hd houtcomes
  have hnil : outcomes = [] ↔ node.composition.oneOf = [] := by
    rw [← List.length_eq_zero_iff, hlength, List.length_eq_zero_iff]
  rw [length_matchedIndices, hcount] at h
  split at h
  case isTrue hmatch =>
    rw [Except.pure_eq_ok] at h
    simp only [Bool.or_eq_true, List.isEmpty_iff, beq_iff_eq, hnil] at hmatch
    simp only [← h, true_iff]
    intro hne
    exact hmatch.resolve_left hne
  case isFalse hmatch =>
    rw [Except.pure_eq_ok] at h
    simp only [Bool.or_eq_true, List.isEmpty_iff, beq_iff_eq, hnil, not_or] at hmatch
    simp [← h, hmatch]

theorem notViolations_eq_nil (hd : Decides apply sat) {value : Json}
    (h : node.notViolations apply value path = .ok violations) :
    violations = [] ↔ ∀ child ∈ node.composition.negated, ¬ sat child value := by
  unfold notViolations at h
  cases hnegated : node.composition.negated with
  | none =>
    rw [hnegated] at h
    simp [← Except.ok.inj h]
  | some child =>
    simp only [hnegated, Except.bind_eq_ok, Except.pure_eq_ok] at h
    obtain ⟨found, hfound, rfl⟩ := h
    have hchild := hd _ _ _ _ hfound
    by_cases hempty : found = [] <;> simp_all

theorem conditionViolations_eq_nil (hd : Decides apply sat) (hf : RefusesFalse schema sat)
    {value : Json} (h : node.conditionViolations schema apply value path = .ok violations) :
    violations = [] ↔ ∀ child ∈ node.composition.condition,
      (sat child value → ∀ branch ∈ node.composition.consequent, sat branch value) ∧
        (¬ sat child value → ∀ branch ∈ node.composition.alternative, sat branch value) := by
  unfold conditionViolations at h
  cases hcondition : node.composition.condition with
  | none =>
    rw [hcondition] at h
    simp [← Except.ok.inj h]
  | some child =>
    simp only [hcondition, Except.bind_eq_ok] at h
    obtain ⟨found, hfound, h⟩ := h
    have hchild := hd _ _ _ _ hfound
    have hbranch : ∀ keyword chosen, (match chosen with
        | some branch => node.descend schema apply (.plain keyword) branch value path
        | none => pure []) = .ok violations →
        (violations = [] ↔ ∀ branch ∈ chosen, sat branch value) := by
      intro keyword chosen hchosen
      cases chosen with
      | none => simp [← Except.pure_eq_ok.mp hchosen]
      | some branch => simpa using descend_eq_nil hd hf hchosen
    by_cases hempty : found = []
    · simp only [hempty, List.isEmpty_nil, if_true] at h
      simp [hbranch _ _ h, hchild.mp hempty]
    · simp only [List.isEmpty_iff, hempty, if_false] at h
      simp [hbranch _ _ h, mt hchild.mpr hempty]

theorem compositionViolations_eq_nil (hd : Decides apply sat) (hf : RefusesFalse schema sat)
    {value : Json} (h : node.compositionViolations schema apply value path = .ok violations) :
    violations = [] ↔ node.composition.Holds sat value := by
  simp only [compositionViolations, Except.bind_eq_ok, Except.pure_eq_ok] at h
  obtain ⟨all, hall, any, hany, one, hone, negated, hnegated, conditional, hconditional, rfl⟩ := h
  have hall' := collect_eq_nil (fun a _ found hfound => descend_eq_nil hd hf hfound) hall
  simp only [List.append_eq_nil_iff, hall', anyOfViolations_eq_nil hd hany,
    oneOfViolations_eq_nil hd hone, notViolations_eq_nil hd hnegated,
    conditionViolations_eq_nil hd hf hconditional]
  constructor
  · rintro ⟨⟨⟨⟨hall, hany⟩, hone⟩, hnot⟩, hcondition⟩
    exact ⟨hall, hany, hone, hnot, fun c hc => (hcondition c hc).1, fun c hc => (hcondition c hc).2⟩
  · rintro ⟨hall, hany, hone, hnot, hthen, helse⟩
    exact ⟨⟨⟨⟨hall, hany⟩, hone⟩, hnot⟩, fun c hc => ⟨hthen c hc, helse c hc⟩⟩

/-! ## Nodes -/

theorem refViolations_eq_nil (hd : Decides apply sat) {value : Json}
    (h : node.refViolations apply value path = .ok violations) :
    violations = [] ↔ ∀ target ∈ node.refTarget, sat target value := by
  unfold refViolations at h
  cases htarget : node.refTarget with
  | none =>
    rw [htarget] at h
    simp [← Except.ok.inj h]
  | some target =>
    rw [htarget] at h
    simpa using hd _ _ _ _ h

theorem innerViolations_eq_nil (hd : Decides apply sat) (hf : RefusesFalse schema sat)
    {assertFormats : Bool} {value : Json}
    (h : node.innerViolations schema apply value path = .ok violations) :
    node.OwnHolds assertFormats value ∧ violations = [] ↔
      node.value.Holds value ∧ node.TypedHolds assertFormats sat value := by
  unfold innerViolations at h
  simp only [OwnHolds, and_assoc]
  refine and_congr_right fun _ => ?_
  cases value with
  | arr items =>
    constructor
    · rintro ⟨hown, hnil⟩
      exact (arrayViolations_eq_nil hd hf hown h).mp hnil
    · intro hholds
      have hown := (node.array.check_eq_nil items).mpr
        ⟨hholds.minItems, hholds.maxItems, hholds.uniqueItems⟩
      exact ⟨hown, (arrayViolations_eq_nil hd hf hown h).mpr hholds⟩
  | obj members =>
    constructor
    · rintro ⟨hown, hnil⟩
      exact (objectViolations_eq_nil hd hf hown h).mp hnil
    · intro hholds
      have hown := (node.object.check_eq_nil members).mpr ⟨hholds.required,
        hholds.minProperties, hholds.maxProperties, hholds.dependentRequired⟩
      exact ⟨hown, (objectViolations_eq_nil hd hf hown h).mpr hholds⟩
  | _ => simp [← Except.ok.inj h, TypedHolds]

theorem violations_eq_nil (hd : Decides apply sat) (hf : RefusesFalse schema sat)
    {options : EvaluationOptions} {value : Json}
    (h : node.violations schema options apply value path = .ok violations) :
    violations = [] ↔ node.Holds options.assertFormats sat value := by
  unfold SchemaNode.violations at h
  unfold SchemaNode.Holds
  cases hbool : node.boolean with
  | some b =>
    rw [hbool] at h
    cases b <;> simp [← Except.ok.inj h]
  | none =>
    simp only [hbool, Except.bind_eq_ok, Except.pure_eq_ok] at h
    obtain ⟨referred, hreferred, own, hown, inner, hinner, composed, hcomposed, rfl⟩ := h
    simp only [List.append_eq_nil_iff, refViolations_eq_nil hd hreferred,
      ownViolations_eq_nil hown, compositionViolations_eq_nil hd hf hcomposed]
    rw [and_assoc, and_assoc, ← and_assoc (b := inner = []),
      innerViolations_eq_nil hd hf hinner, and_assoc]

end SchemaNode

/-! ## Whole evaluations -/

namespace CompiledSchema

variable {schema : CompiledSchema} {options : EvaluationOptions}

theorem unfolded_refusesFalse (assertFormats : Bool) (base : NodeId → Json → Prop) (depth : Nat) :
    RefusesFalse schema (schema.unfolded assertFormats base (depth + 1)) := by
  intro id node hnode hfalse value hholds
  have := hholds node hnode
  simp [SchemaNode.Holds, hfalse] at this

theorem evaluate_decides_unfolded (base : NodeId → Json → Prop) (budget : Nat) :
    Decides (schema.evaluate options budget)
      (schema.unfolded options.assertFormats base (budget + 1)) := by
  -- A false schema is refused without a visit, so one unfolding more than the budget is needed.
  induction budget with
  | zero =>
    intro id value path violations h
    simp [evaluate] at h
  | succ budget ih =>
    intro id value path violations h
    rw [evaluate] at h
    cases hnode : schema.node? id with
    | none =>
      simp only [hnode, Except.ok.injEq] at h
      simp [unfolded, Unfolds, hnode, ← h]
    | some node =>
      simp only [hnode] at h
      rw [SchemaNode.violations_eq_nil ih (unfolded_refusesFalse _ _ _) h]
      simp [unfolded, Unfolds, hnode]

theorem evaluate_decides_satisfies (budget : Nat) :
    Decides (schema.evaluate options budget) (schema.Satisfies options.assertFormats) := by
  intro id value path violations h
  have hbase := fun base => evaluate_decides_unfolded base budget id value path violations h
  exact ⟨fun hnil => ⟨budget + 1, fun base => (hbase base).mp hnil⟩,
    fun hsat => hsat.unfolded_of_all hbase⟩

theorem satisfies_refusesFalse (assertFormats : Bool) :
    RefusesFalse schema (schema.Satisfies assertFormats) := by
  rintro id node hnode hfalse value ⟨depth, hdepth⟩
  cases depth with
  | zero => exact hdepth fun _ _ => False
  | succ depth =>
    exact unfolded_refusesFalse _ (fun _ _ => False) depth id node hnode hfalse value (hdepth _)

/-- Where an evaluation comes to an end, what it asks is what the equations of its node say. -/
theorem satisfies_iff_unfolds {budget : Nat} {id : NodeId} {value : Json} {path : Path}
    {violations : Violations}
    (h : schema.evaluate options budget id value path = .ok violations) :
    schema.Satisfies options.assertFormats id value ↔
      schema.Unfolds options.assertFormats (schema.Satisfies options.assertFormats) id value := by
  rw [← evaluate_decides_satisfies budget id value path violations h]
  cases budget with
  | zero => simp [evaluate] at h
  | succ budget =>
    rw [evaluate] at h
    cases hnode : schema.node? id with
    | none =>
      simp only [hnode, Except.ok.injEq] at h
      simp [Unfolds, hnode, ← h]
    | some node =>
      simp only [hnode] at h
      rw [SchemaNode.violations_eq_nil (evaluate_decides_satisfies budget)
        (satisfies_refusesFalse _) h, Unfolds]
      simp [hnode]

/--
An evaluation that comes to an end finds nothing exactly when the value satisfies the node. What
it is to satisfy the node is what the node's equation says, and any other solution of all
equations agrees with it there.
-/
theorem evaluate_eq_nil_iff {budget : Nat} {id : NodeId} {value : Json} {path : Path}
    {violations : Violations}
    (h : schema.evaluate options budget id value path = .ok violations) :
    (violations = [] ↔ schema.Satisfies options.assertFormats id value) ∧
      (schema.Satisfies options.assertFormats id value ↔
        schema.Unfolds options.assertFormats (schema.Satisfies options.assertFormats) id value) ∧
      ∀ sat, schema.Unfolds options.assertFormats sat = sat → (violations = [] ↔ sat id value) := by
  refine ⟨evaluate_decides_satisfies budget _ _ _ _ h, satisfies_iff_unfolds h, ?_⟩
  intro sat hsat
  rw [evaluate_decides_unfolded sat budget _ _ _ _ h, unfolded_solution hsat]

def listSchema : CompiledSchema where
  nodes := #[
    { id := 0, location := "#", composition := { anyOf := [1, 2] } },
    { id := 1, location := "#/anyOf/0", value := { types := some [.null] } },
    { id := 2, location := "#/anyOf/1", value := { types := some [.object] },
      object := { properties := [("next", 3)], additionalProperties := some 4 } },
    { id := 3, location := "#/anyOf/1/properties/next", ref := some "#", refTarget := some 0 },
    { id := 4, location := "#/anyOf/1/additionalProperties", boolean := some false }]
  draft := .latest
  locations := #["#", "#/anyOf/0", "#/anyOf/1", "#/anyOf/1/properties/next",
    "#/anyOf/1/additionalProperties"]
  warnings := []

/-- One list is accepted, and a value with a second property in its depth is refused. -/
theorem listSchema_decides :
    listSchema.Satisfies false 0 (.obj [("next", .obj [("next", .null)])]) ∧
      ¬ listSchema.Satisfies false 0 (.obj [("next", .obj [("next", .null), ("more", .null)])]) := by
  constructor
  · exact (evaluate_eq_nil_iff (rfl : listSchema.evaluate ⟨10, false⟩ 11 0
      (.obj [("next", .obj [("next", .null)])]) [] = .ok [])).1.mp rfl
  · have hrun : ∃ violation rest, listSchema.evaluate ⟨10, false⟩ 11 0
        (.obj [("next", .obj [("next", .null), ("more", .null)])]) [] = .ok (violation :: rest) :=
      ⟨_, _, rfl⟩
    obtain ⟨violation, rest, hrun⟩ := hrun
    exact mt (evaluate_eq_nil_iff hrun).1.mpr (List.cons_ne_nil _ _)

end CompiledSchema

end JsonSchema

import JsonSchema.Proofs.Evaluation.Meaning
import JsonSchema.Proofs.Outcome

/-!
# Assertions about a single value

One statement for each check: it finds nothing exactly when the keywords hold.
-/

namespace JsonSchema

theorem failIf_eq_nil (condition : Bool) (keyword message : String) :
    failIf condition keyword message = [] ↔ condition = false := by
  cases condition <;> simp [failIf]

theorem failLimit_eq_nil {α : Type} (limit : Option α) (breaks : α → Bool) (keyword : String)
    (message : α → String) :
    failLimit limit breaks keyword message = [] ↔ ∀ l ∈ limit, breaks l = false := by
  cases limit <;> simp [failLimit, failIf_eq_nil]

/-! ## Values of every type -/

theorem Json.hasKind_iff (value : Json) (kind : Json.Kind) :
    value.hasKind kind = true ↔ value.OfKind kind := by
  cases value with
  | num n =>
    have hint := n.isIntegral_iff
    cases kind <;> simp only [Json.hasKind, Json.kind, Json.OfKind] <;> grind
  | _ => cases kind <;> simp [Json.hasKind, Json.kind, Json.OfKind]

theorem ValueKeywords.checks_eq_nil (keywords : ValueKeywords) (value : Json) :
    keywords.checkType value ++ keywords.checkOptions value = [] ↔ keywords.Holds value := by
  simp only [ValueKeywords.checkType, ValueKeywords.checkOptions, List.append_eq_nil_iff,
    failLimit_eq_nil, Bool.not_eq_false', List.any_eq_true, Json.hasKind_iff]
  constructor
  · rintro ⟨htypes, hoptions, hconst⟩
    exact ⟨htypes, hoptions, hconst⟩
  · rintro ⟨htypes, hoptions, hconst⟩
    exact ⟨htypes, hoptions, hconst⟩

/-! ## Numbers -/

theorem NumberKeywords.check_eq_nil (keywords : NumberKeywords) (n : Number) :
    keywords.check n = [] ↔ keywords.Holds n := by
  simp only [NumberKeywords.check, List.append_eq_nil_iff, failLimit_eq_nil, Bool.eq_false_iff,
    ne_eq, Number.lt_iff, Number.le_iff, not_lt, not_le, Bool.not_eq_true', not_not]
  constructor
  · rintro ⟨⟨⟨⟨hmin, hmax⟩, hlow⟩, hhigh⟩, hstep⟩
    exact ⟨hmin, hmax, hlow, hhigh, hstep⟩
  · rintro ⟨hmin, hmax, hlow, hhigh, hstep⟩
    exact ⟨⟨⟨⟨hmin, hmax⟩, hlow⟩, hhigh⟩, hstep⟩

/-! ## Strings -/

theorem StringKeywords.check_eq_nil (keywords : StringKeywords) (s : String) :
    keywords.check s = [] ↔ (∀ limit ∈ keywords.minLength, limit ≤ s.length) ∧
      (∀ limit ∈ keywords.maxLength, s.length ≤ limit) ∧
      ∀ pattern ∈ keywords.pattern, pattern.isIn s = true := by
  simp only [StringKeywords.check, List.append_eq_nil_iff, failLimit_eq_nil, Bool.not_eq_false',
    decide_eq_false_iff_not, not_lt, and_assoc]

theorem StringKeywords.checkFormat_eq_nil {keywords : StringKeywords} {s : String}
    {failures : List Failure} (h : keywords.checkFormat s = .ok failures) :
    failures = [] ↔ ∀ name ∈ keywords.format, ∀ format ∈ Format.ofName? name,
      format.accepts s = .ok true := by
  unfold StringKeywords.checkFormat at h
  cases hformat : keywords.format with
  | none => simp_all
  | some name =>
    simp only [hformat, Format.check] at h
    cases hknown : Format.ofName? name with
    | none =>
      simp only [hknown, Except.map, Except.ok.injEq] at h
      simp [← h, failIf, hknown]
    | some format =>
      cases haccepts : format.accepts s with
      | error fault => simp [hknown, haccepts, Except.map] at h
      | ok accepted =>
        simp only [hknown, haccepts, Except.map, Except.ok.injEq] at h
        rw [← h, failIf_eq_nil]
        cases accepted <;> simp [hknown, haccepts]

/-! ## Arrays -/

theorem firstEqualPair?_eq_none (index : Nat) (items : List Json) :
    firstEqualPair? index items = none ↔ items.Pairwise fun a b => a.same b = false := by
  induction items generalizing index with
  | nil => simp [firstEqualPair?]
  | cons item rest ih =>
    rw [firstEqualPair?, List.pairwise_cons]
    cases hfind : rest.findIdx? item.same with
    | none =>
      rw [List.findIdx?_eq_none_iff] at hfind
      exact (ih (index + 1)).trans (and_iff_right hfind).symm
    | some distance =>
      simp only [reduceCtorEq, false_iff, not_and]
      intro hall
      obtain ⟨hlt, hsame, -⟩ := List.findIdx?_eq_some_iff_getElem.mp hfind
      simp [hall _ (List.getElem_mem hlt)] at hsame

theorem ArrayKeywords.check_eq_nil (keywords : ArrayKeywords) (items : List Json) :
    keywords.check items = [] ↔ (∀ limit ∈ keywords.minItems, limit ≤ items.length) ∧
      (∀ limit ∈ keywords.maxItems, items.length ≤ limit) ∧
      (keywords.uniqueItems = true → items.Pairwise fun a b => a.same b = false) := by
  have hunique : (∀ pair ∈ if keywords.uniqueItems then firstEqualPair? 0 items else none,
      True = False) ↔
      (keywords.uniqueItems = true → items.Pairwise fun a b => a.same b = false) := by
    rw [← firstEqualPair?_eq_none 0]
    cases keywords.uniqueItems <;> cases firstEqualPair? 0 items <;> simp
  simp only [ArrayKeywords.check, List.append_eq_nil_iff, failLimit_eq_nil,
    decide_eq_false_iff_not, not_lt, and_assoc, ← hunique, eq_iff_iff, true_iff, Bool.true_eq_false]

/-! ## Objects -/

theorem missingDependencies_eq_nil (members : Members Json) (trigger : String)
    (names : List String) :
    missingDependencies members trigger names = [] ↔
      (members.has trigger = true → ∀ name ∈ names, members.has name = true) := by
  unfold missingDependencies
  split <;> simp_all [failIf_eq_nil]

theorem ObjectKeywords.check_eq_nil (keywords : ObjectKeywords) (members : Members Json) :
    keywords.check members = [] ↔ (∀ name ∈ keywords.required, members.has name = true) ∧
      (∀ limit ∈ keywords.minProperties, limit ≤ members.length) ∧
      (∀ limit ∈ keywords.maxProperties, members.length ≤ limit) ∧
      ∀ trigger names, (trigger, names) ∈ keywords.dependentRequired →
        members.has trigger = true → ∀ name ∈ names, members.has name = true := by
  simp only [ObjectKeywords.check, List.append_eq_nil_iff, failLimit_eq_nil,
    List.flatMap_eq_nil_iff, failIf_eq_nil, missingDependencies_eq_nil, Bool.not_eq_false',
    decide_eq_false_iff_not, not_lt, and_assoc, Prod.forall]

/-! ## Nodes -/

/-- What the value alone decides about a node; the schemas of its parts stay apart. -/
def SchemaNode.OwnHolds (node : SchemaNode) (assertFormats : Bool) (value : Json) : Prop :=
  node.value.Holds value ∧ match value with
    | .num n => node.number.Holds n
    | .str s => node.string.Holds assertFormats s
    | .arr items => node.array.check items = []
    | .obj members => node.object.check members = []
    | _ => True

theorem SchemaNode.ownViolations_eq_nil {node : SchemaNode} {options : EvaluationOptions}
    {value : Json} {path : Path} {violations : Violations}
    (h : node.ownViolations options value path = .ok violations) :
    violations = [] ↔ node.OwnHolds options.assertFormats value := by
  unfold SchemaNode.ownViolations at h
  cases hformat : node.formatFailures options.assertFormats value with
  | error fault => simp [hformat, Except.mapError_error, bind, Except.bind] at h
  | ok failures =>
    simp only [hformat, Except.mapError_ok, bind, Except.bind, pure, Except.pure,
      Except.ok.injEq] at h
    subst h
    simp only [List.map_eq_nil_iff, SchemaNode.failures, List.append_eq_nil_iff,
      SchemaNode.OwnHolds]
    rw [← List.append_eq_nil_iff, node.value.checks_eq_nil]
    cases value with
    | str s =>
      have hasserted : failures = [] ↔ (options.assertFormats = true →
          ∀ name ∈ node.string.format, ∀ format ∈ Format.ofName? name,
            format.accepts s = .ok true) := by
        cases hassert : options.assertFormats with
        | false => simp_all [SchemaNode.formatFailures]
        | true =>
          simp only [SchemaNode.formatFailures, hassert, if_true] at hformat
          simpa using StringKeywords.checkFormat_eq_nil hformat
      rw [hasserted, and_assoc, StringKeywords.check_eq_nil]
      exact and_congr_right fun _ => ⟨fun ⟨⟨hmin, hmax, hpattern⟩, hf⟩ => ⟨hmin, hmax, hpattern, hf⟩,
        fun ⟨hmin, hmax, hpattern, hf⟩ => ⟨⟨hmin, hmax, hpattern⟩, hf⟩⟩
    | num n =>
      obtain rfl : failures = [] := by simpa [SchemaNode.formatFailures] using hformat.symm
      simp [NumberKeywords.check_eq_nil]
    | _ =>
      obtain rfl : failures = [] := by simpa [SchemaNode.formatFailures] using hformat.symm
      simp

end JsonSchema

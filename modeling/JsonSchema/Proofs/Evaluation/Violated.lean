import JsonSchema.Proofs.Evaluation.Checks

/-!
# Violated keywords

What it is for a value to violate a single keyword of a node, with no lists of violations in it.
`sat` tells which nodes hold of which values. The checks of a value alone name exactly the keywords
that it violates.
-/

namespace JsonSchema

/-! ## Values alone -/

inductive ValueKeywords.Violates (keywords : ValueKeywords) (value : Json) : String → Prop where
  | type {types : List Json.Kind} (h : keywords.types = some types)
      (hnone : ∀ kind ∈ types, ¬ value.OfKind kind) : Violates keywords value "type"
  | enum {options : List Json} (h : keywords.options = some options)
      (hnone : ∀ option ∈ options, value.same option = false) : Violates keywords value "enum"
  | const {expected : Json} (h : keywords.const = some expected)
      (hdiffers : value.same expected = false) : Violates keywords value "const"

inductive NumberKeywords.Violates (keywords : NumberKeywords) (n : Number) : String → Prop where
  | minimum {limit : Number} (h : keywords.minimum = some limit) (hlow : n.value < limit.value) :
      Violates keywords n "minimum"
  | maximum {limit : Number} (h : keywords.maximum = some limit) (hhigh : limit.value < n.value) :
      Violates keywords n "maximum"
  | exclusiveMinimum {limit : Number} (h : keywords.exclusiveMinimum = some limit)
      (hlow : n.value ≤ limit.value) : Violates keywords n "exclusiveMinimum"
  | exclusiveMaximum {limit : Number} (h : keywords.exclusiveMaximum = some limit)
      (hhigh : limit.value ≤ n.value) : Violates keywords n "exclusiveMaximum"
  | multipleOf {step : Number} (h : keywords.multipleOf = some step)
      (hnot : n.isMultipleOf step = false) : Violates keywords n "multipleOf"

/-- A format counts only where formats are asserted and its name is known. -/
inductive StringKeywords.Violates (keywords : StringKeywords) (assertFormats : Bool) (s : String) :
    String → Prop where
  | minLength {limit : Nat} (h : keywords.minLength = some limit) (hshort : s.length < limit) :
      Violates keywords assertFormats s "minLength"
  | maxLength {limit : Nat} (h : keywords.maxLength = some limit) (hlong : limit < s.length) :
      Violates keywords assertFormats s "maxLength"
  | pattern {pattern : Pattern} (h : keywords.pattern = some pattern)
      (hnot : pattern.isIn s = false) : Violates keywords assertFormats s "pattern"
  | format {name : String} {format : Format} (hassert : assertFormats = true)
      (h : keywords.format = some name) (hknown : Format.ofName? name = some format)
      (hrefuses : format.accepts s = .ok false) : Violates keywords assertFormats s "format"

inductive ArrayKeywords.Violates (keywords : ArrayKeywords) (items : List Json) : String → Prop where
  | minItems {limit : Nat} (h : keywords.minItems = some limit) (hshort : items.length < limit) :
      Violates keywords items "minItems"
  | maxItems {limit : Nat} (h : keywords.maxItems = some limit) (hlong : limit < items.length) :
      Violates keywords items "maxItems"
  | uniqueItems (h : keywords.uniqueItems = true)
      (hequal : ¬ items.Pairwise fun a b => a.same b = false) : Violates keywords items "uniqueItems"

inductive ObjectKeywords.Violates (keywords : ObjectKeywords) (members : Members Json) :
    String → Prop where
  | required {name : String} (h : name ∈ keywords.required) (hmissing : members.has name = false) :
      Violates keywords members "required"
  | minProperties {limit : Nat} (h : keywords.minProperties = some limit)
      (hfew : members.length < limit) : Violates keywords members "minProperties"
  | maxProperties {limit : Nat} (h : keywords.maxProperties = some limit)
      (hmany : limit < members.length) : Violates keywords members "maxProperties"
  | dependentRequired {trigger name : String} {names : List String}
      (h : (trigger, names) ∈ keywords.dependentRequired) (htrigger : members.has trigger = true)
      (hname : name ∈ names) (hmissing : members.has name = false) :
      Violates keywords members "dependentRequired"

/-! ## Values and the schemas that they are counted by -/

/-- Where `minContains` is given it takes the place of the one match that `contains` asks for. -/
inductive ArrayKeywords.Miscounts (keywords : ArrayKeywords) (sat : NodeId → Json → Prop)
    (items : List Json) : String → Prop where
  | contains {child : NodeId} (h : keywords.contains = some child)
      (hleast : keywords.minContains = none) (hnone : ∀ item ∈ items, ¬ sat child item) :
      Miscounts keywords sat items "contains"
  | minContains {child : NodeId} {least : Nat} (h : keywords.contains = some child)
      (hleast : keywords.minContains = some least) (hfew : countHolding sat child items < least) :
      Miscounts keywords sat items "minContains"
  | maxContains {child : NodeId} {most : Nat} (h : keywords.contains = some child)
      (hmost : keywords.maxContains = some most) (hmany : most < countHolding sat child items) :
      Miscounts keywords sat items "maxContains"

open Classical in
inductive Composition.Violates (keywords : Composition) (sat : NodeId → Json → Prop)
    (value : Json) : String → Prop where
  | anyOf (h : keywords.anyOf ≠ []) (hnone : ∀ child ∈ keywords.anyOf, ¬ sat child value) :
      Violates keywords sat value "anyOf"
  | oneOf (h : keywords.oneOf ≠ [])
      (hcount : keywords.oneOf.countP (fun child => decide (sat child value)) ≠ 1) :
      Violates keywords sat value "oneOf"
  | not {child : NodeId} (h : keywords.negated = some child) (hsat : sat child value) :
      Violates keywords sat value "not"

/-- The value violates a keyword for the type that it has, and no other node counts for this. -/
def SchemaNode.ViolatesTyped (node : SchemaNode) (assertFormats : Bool) (value : Json)
    (keyword : String) : Prop :=
  match value with
  | .num n => node.number.Violates n keyword
  | .str s => node.string.Violates assertFormats s keyword
  | .arr items => node.array.Violates items keyword
  | .obj members => node.object.Violates members keyword
  | _ => False

/-- The value violates the keyword of the node, by what this keyword alone asks. -/
inductive SchemaNode.Violates (node : SchemaNode) (assertFormats : Bool)
    (sat : NodeId → Json → Prop) : Json → String → Prop where
  | value {value : Json} {keyword : String} (h : node.value.Violates value keyword) :
      Violates node assertFormats sat value keyword
  | typed {value : Json} {keyword : String} (h : node.ViolatesTyped assertFormats value keyword) :
      Violates node assertFormats sat value keyword
  | contains {items : List Json} {keyword : String} (h : node.array.Miscounts sat items keyword) :
      Violates node assertFormats sat (.arr items) keyword
  | composition {value : Json} {keyword : String}
      (h : node.composition.Violates sat value keyword) :
      Violates node assertFormats sat value keyword

/-! ## The keywords of failures -/

def Fails (failures : List Failure) (keyword : String) : Prop :=
  ∃ failure ∈ failures, failure.keyword = keyword

section

variable {keyword : String}

theorem not_fails_nil : ¬ Fails [] keyword := by
  simp [Fails]

theorem fails_append {failures others : List Failure} :
    Fails (failures ++ others) keyword ↔ Fails failures keyword ∨ Fails others keyword := by
  simp only [Fails, List.mem_append, or_and_right, exists_or]

theorem fails_flatMap {α : Type} {list : List α} {check : α → List Failure} :
    Fails (list.flatMap check) keyword ↔ ∃ a ∈ list, Fails (check a) keyword := by
  simp only [Fails, List.mem_flatMap]
  grind

theorem fails_failIf {condition : Bool} {name message : String} :
    Fails (failIf condition name message) keyword ↔ keyword = name ∧ condition = true := by
  cases condition <;> simp [Fails, failIf, eq_comm]

theorem fails_failLimit {α : Type} {limit : Option α} {breaks : α → Bool} {name : String}
    {message : α → String} :
    Fails (failLimit limit breaks name message) keyword ↔
      keyword = name ∧ ∃ l, limit = some l ∧ breaks l = true := by
  cases limit with
  | none => simp [Fails, failLimit]
  | some l => simp [failLimit, fails_failIf]

/-! ## Checks of the value alone -/

theorem ValueKeywords.fails_checks {keywords : ValueKeywords} {value : Json} :
    Fails (keywords.checkType value ++ keywords.checkOptions value) keyword ↔
      keywords.Violates value keyword := by
  simp only [checkType, checkOptions, fails_append, fails_failLimit, Bool.not_eq_true',
    List.any_eq_false, Json.hasKind_iff, Bool.not_eq_true]
  constructor
  · rintro (⟨rfl, types, htypes, hnone⟩ | ⟨rfl, options, hoptions, hnone⟩ |
      ⟨rfl, expected, hconst, hdiffers⟩)
    · exact .type htypes hnone
    · exact .enum hoptions hnone
    · exact .const hconst hdiffers
  · rintro (⟨htypes, hnone⟩ | ⟨hoptions, hnone⟩ | ⟨hconst, hdiffers⟩)
    · exact .inl ⟨rfl, _, htypes, hnone⟩
    · exact .inr (.inl ⟨rfl, _, hoptions, hnone⟩)
    · exact .inr (.inr ⟨rfl, _, hconst, hdiffers⟩)

theorem NumberKeywords.fails_check {keywords : NumberKeywords} {n : Number} :
    Fails (keywords.check n) keyword ↔ keywords.Violates n keyword := by
  simp only [check, fails_append, fails_failLimit, Number.lt_iff, Number.le_iff, Bool.not_eq_true']
  constructor
  · rintro ((((⟨rfl, limit, h, hlow⟩ | ⟨rfl, limit, h, hhigh⟩) | ⟨rfl, limit, h, hlow⟩) |
      ⟨rfl, limit, h, hhigh⟩) | ⟨rfl, step, h, hnot⟩)
    · exact .minimum h hlow
    · exact .maximum h hhigh
    · exact .exclusiveMinimum h hlow
    · exact .exclusiveMaximum h hhigh
    · exact .multipleOf h hnot
  · rintro (⟨h, hlow⟩ | ⟨h, hhigh⟩ | ⟨h, hlow⟩ | ⟨h, hhigh⟩ | ⟨h, hnot⟩)
    · exact .inl (.inl (.inl (.inl ⟨rfl, _, h, hlow⟩)))
    · exact .inl (.inl (.inl (.inr ⟨rfl, _, h, hhigh⟩)))
    · exact .inl (.inl (.inr ⟨rfl, _, h, hlow⟩))
    · exact .inl (.inr ⟨rfl, _, h, hhigh⟩)
    · exact .inr ⟨rfl, _, h, hnot⟩

theorem StringKeywords.fails_checkFormat {keywords : StringKeywords} {s : String}
    {failures : List Failure} (h : keywords.checkFormat s = .ok failures) :
    Fails failures keyword ↔ keyword = "format" ∧ ∃ name format,
      keywords.format = some name ∧ Format.ofName? name = some format ∧
        format.accepts s = .ok false := by
  unfold checkFormat at h
  cases hname : keywords.format with
  | none =>
    rw [hname] at h
    obtain rfl := Except.ok.inj h
    simp [not_fails_nil]
  | some name =>
    rw [hname] at h
    obtain ⟨outcome, hcheck, rfl⟩ := Except.map_eq_ok.mp h
    rw [fails_failIf]
    unfold Format.check at hcheck
    cases hknown : Format.ofName? name with
    | none =>
      rw [hknown] at hcheck
      obtain rfl := Except.ok.inj hcheck
      simp [hknown]
    | some format =>
      rw [hknown] at hcheck
      obtain ⟨accepted, haccepts, rfl⟩ := Except.map_eq_ok.mp hcheck
      simp [hknown, haccepts]

theorem SchemaNode.fails_string {node : SchemaNode} {assertFormats : Bool} {s : String}
    {failures : List Failure} (h : node.formatFailures assertFormats (.str s) = .ok failures) :
    Fails (node.string.check s ++ failures) keyword ↔
      node.string.Violates assertFormats s keyword := by
  have hformat : Fails failures keyword ↔ keyword = "format" ∧ assertFormats = true ∧
      ∃ name format, node.string.format = some name ∧ Format.ofName? name = some format ∧
        format.accepts s = .ok false := by
    unfold formatFailures at h
    cases assertFormats with
    | false =>
      obtain rfl := Except.ok.inj h
      simp [not_fails_nil]
    | true => simpa using StringKeywords.fails_checkFormat h
  simp only [StringKeywords.check, fails_append, fails_failLimit, hformat, decide_eq_true_eq,
    Bool.not_eq_true']
  constructor
  · rintro (((⟨rfl, limit, h, hshort⟩ | ⟨rfl, limit, h, hlong⟩) | ⟨rfl, pattern, h, hnot⟩) |
      ⟨rfl, hassert, name, format, h, hknown, hrefuses⟩)
    · exact .minLength h hshort
    · exact .maxLength h hlong
    · exact .pattern h hnot
    · exact .format hassert h hknown hrefuses
  · rintro (⟨h, hshort⟩ | ⟨h, hlong⟩ | ⟨h, hnot⟩ | ⟨hassert, h, hknown, hrefuses⟩)
    · exact .inl (.inl (.inl ⟨rfl, _, h, hshort⟩))
    · exact .inl (.inl (.inr ⟨rfl, _, h, hlong⟩))
    · exact .inl (.inr ⟨rfl, _, h, hnot⟩)
    · exact .inr ⟨rfl, hassert, _, _, h, hknown, hrefuses⟩

theorem ArrayKeywords.fails_check {keywords : ArrayKeywords} {items : List Json} :
    Fails (keywords.check items) keyword ↔ keywords.Violates items keyword := by
  simp only [check, fails_append, fails_failLimit, decide_eq_true_eq, and_true]
  rw [← Option.isSome_iff_exists]
  have hequal : (if keywords.uniqueItems then firstEqualPair? 0 items else none).isSome = true ↔
      keywords.uniqueItems = true ∧ ¬ items.Pairwise fun a b => a.same b = false := by
    rw [← firstEqualPair?_eq_none 0]
    cases keywords.uniqueItems <;> simp [Option.isSome_iff_ne_none]
  rw [hequal]
  constructor
  · rintro ((⟨rfl, limit, h, hshort⟩ | ⟨rfl, limit, h, hlong⟩) | ⟨rfl, h, hpair⟩)
    · exact .minItems h hshort
    · exact .maxItems h hlong
    · exact .uniqueItems h hpair
  · rintro (⟨h, hshort⟩ | ⟨h, hlong⟩ | ⟨h, hpair⟩)
    · exact .inl (.inl ⟨rfl, _, h, hshort⟩)
    · exact .inl (.inr ⟨rfl, _, h, hlong⟩)
    · exact .inr ⟨rfl, h, hpair⟩

theorem fails_missingDependencies {members : Members Json} {trigger : String}
    {names : List String} :
    Fails (missingDependencies members trigger names) keyword ↔
      keyword = "dependentRequired" ∧ members.has trigger = true ∧
        ∃ name ∈ names, members.has name = false := by
  unfold missingDependencies
  split
  · simp only [fails_flatMap, fails_failIf, Bool.not_eq_true']
    grind
  · simp_all [not_fails_nil]

theorem ObjectKeywords.fails_check {keywords : ObjectKeywords} {members : Members Json} :
    Fails (keywords.check members) keyword ↔ keywords.Violates members keyword := by
  simp only [check, fails_append, fails_flatMap, fails_failIf, fails_failLimit,
    fails_missingDependencies, decide_eq_true_eq, Bool.not_eq_true']
  constructor
  · rintro (((⟨name, h, rfl, hmissing⟩ | ⟨rfl, limit, h, hfew⟩) | ⟨rfl, limit, h, hmany⟩) |
      ⟨entry, h, rfl, htrigger, name, hname, hmissing⟩)
    · exact .required h hmissing
    · exact .minProperties h hfew
    · exact .maxProperties h hmany
    · exact .dependentRequired h htrigger hname hmissing
  · rintro (⟨h, hmissing⟩ | ⟨h, hfew⟩ | ⟨h, hmany⟩ | ⟨h, htrigger, hname, hmissing⟩)
    · exact .inl (.inl (.inl ⟨_, h, rfl, hmissing⟩))
    · exact .inl (.inl (.inr ⟨rfl, _, h, hfew⟩))
    · exact .inl (.inr ⟨rfl, _, h, hmany⟩)
    · exact .inr ⟨_, h, rfl, htrigger, _, hname, hmissing⟩

/-! ## Nodes -/

theorem SchemaNode.fails_own {node : SchemaNode} {assertFormats : Bool} {value : Json}
    {failures : List Failure} (h : node.formatFailures assertFormats value = .ok failures) :
    Fails (node.failures value ++ failures) keyword ↔
      node.value.Violates value keyword ∨ node.ViolatesTyped assertFormats value keyword := by
  unfold SchemaNode.failures
  rw [List.append_assoc, fails_append, ValueKeywords.fails_checks]
  refine or_congr_right ?_
  cases value with
  | str s => exact fails_string h
  | num n =>
    obtain rfl := Except.ok.inj h
    exact (List.append_nil _) ▸ NumberKeywords.fails_check
  | arr items =>
    obtain rfl := Except.ok.inj h
    exact (List.append_nil _) ▸ ArrayKeywords.fails_check
  | obj members =>
    obtain rfl := Except.ok.inj h
    exact (List.append_nil _) ▸ ObjectKeywords.fails_check
  | null | bool =>
    obtain rfl := Except.ok.inj h
    exact iff_of_false not_fails_nil not_false

end

end JsonSchema

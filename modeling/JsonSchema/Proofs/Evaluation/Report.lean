import JsonSchema.Proofs.Evaluation.Safety

/-!
# What a node reports

A node applies other nodes to its own value or to a part of it. What it reports itself names one of
the keywords that it has, in the words of that keyword.
-/

namespace JsonSchema

/-! ## Keywords that are there -/

def ValueKeywords.present (keywords : ValueKeywords) : List (String × Bool) :=
  [("type", keywords.types.isSome), ("enum", keywords.options.isSome),
    ("const", keywords.const.isSome)]

def NumberKeywords.present (keywords : NumberKeywords) : List (String × Bool) :=
  [("minimum", keywords.minimum.isSome), ("maximum", keywords.maximum.isSome),
    ("exclusiveMinimum", keywords.exclusiveMinimum.isSome),
    ("exclusiveMaximum", keywords.exclusiveMaximum.isSome),
    ("multipleOf", keywords.multipleOf.isSome)]

def StringKeywords.present (keywords : StringKeywords) : List (String × Bool) :=
  [("minLength", keywords.minLength.isSome), ("maxLength", keywords.maxLength.isSome),
    ("pattern", keywords.pattern.isSome), ("format", keywords.format.isSome)]

def ArrayKeywords.present (keywords : ArrayKeywords) : List (String × Bool) :=
  [("minItems", keywords.minItems.isSome), ("maxItems", keywords.maxItems.isSome),
    ("uniqueItems", keywords.uniqueItems),
    (keywords.firstItemsKeyword, !keywords.firstItems.isEmpty),
    (keywords.itemsKeyword, keywords.items.isSome), ("contains", keywords.contains.isSome),
    ("minContains", keywords.minContains.isSome), ("maxContains", keywords.maxContains.isSome)]

def ObjectKeywords.present (keywords : ObjectKeywords) : List (String × Bool) :=
  [("required", !keywords.required.isEmpty), ("properties", !keywords.properties.isEmpty),
    ("patternProperties", !keywords.patternProperties.isEmpty),
    ("additionalProperties", keywords.additionalProperties.isSome),
    ("minProperties", keywords.minProperties.isSome),
    ("maxProperties", keywords.maxProperties.isSome),
    ("propertyNames", keywords.propertyNames.isSome),
    ("dependentRequired", !keywords.dependentRequired.isEmpty),
    ("dependentSchemas", !keywords.dependentSchemas.isEmpty)]

def Composition.present (keywords : Composition) : List (String × Bool) :=
  [("allOf", !keywords.allOf.isEmpty), ("anyOf", !keywords.anyOf.isEmpty),
    ("oneOf", !keywords.oneOf.isEmpty), ("not", keywords.negated.isSome),
    ("then", keywords.consequent.isSome), ("else", keywords.alternative.isSome)]

namespace SchemaNode

/-- The keywords that may be violated at a node, each with whether the node has it. -/
def present (node : SchemaNode) : List (String × Bool) :=
  node.value.present ++ node.number.present ++ node.string.present ++ node.array.present ++
    node.object.present ++ node.composition.present

def Has (node : SchemaNode) (keyword : String) : Prop := (keyword, true) ∈ node.present

/-! ## Applications -/

def inPlace (node : SchemaNode) : List NodeId :=
  node.refTarget.toList ++ node.composition.allOf ++ node.composition.anyOf ++
    node.composition.oneOf ++ node.composition.negated.toList ++
    node.composition.condition.toList ++ node.composition.consequent.toList ++
    node.composition.alternative.toList ++ node.object.dependentSchemas.map (·.2)

def forItems (node : SchemaNode) : List NodeId :=
  node.array.firstItems ++ node.array.items.toList ++ node.array.contains.toList

def forMembers (node : SchemaNode) : List NodeId :=
  node.object.properties.map (·.2) ++ node.object.patternProperties.map (·.node) ++
    node.object.additionalProperties.toList

/-- On a value at a path, the node applies a child to a value at a path. -/
inductive Applies (node : SchemaNode) : Json → Path → NodeId → Json → Path → Prop where
  | inPlace {value : Json} {path : Path} {child : NodeId} (h : child ∈ node.inPlace) :
      Applies node value path child value path
  | item {items : List Json} {path : Path} {child : NodeId} {i : Nat} {item : Json}
      (h : child ∈ node.forItems) (hitem : items[i]? = some item) :
      Applies node (.arr items) path child item (path ++ [.index i])
  | member {members : Members Json} {path : Path} {child : NodeId} {name : String} {value : Json}
      (h : child ∈ node.forMembers) (hmember : (name, value) ∈ members) :
      Applies node (.obj members) path child value (path ++ [.name name])
  /-- A name has no path of its own. -/
  | name {members : Members Json} {path : Path} {child : NodeId} {name : String}
      (h : node.object.propertyNames = some child) (hname : name ∈ members.names) :
      Applies node (.obj members) path child (.str name) path

/-- The violation is one that the node itself finds on a value at a path. -/
inductive Raises (node : SchemaNode) (value : Json) (path : Path) : Violation → Prop where
  | refused (hboolean : node.boolean = some false) (message : String) :
      Raises node value path ⟨path, "false", message, node.location⟩
  | own {keyword : String} (hboolean : node.boolean = none) (h : node.Has keyword)
      (message : String) : Raises node value path (node.violation path keyword message)
  | applied {keyword : String} {child : NodeId} {value' : Json} {path' : Path}
      (hboolean : node.boolean = none) (h : node.Has keyword)
      (happlies : node.Applies value path child value' path') (message : String) :
      Raises node value path (node.violation path' keyword message)

/-- The format of the node finds no answer for a string. -/
inductive Breaks (node : SchemaNode) (options : EvaluationOptions) :
    Json → EvaluationFault → Prop where
  | format {text name : String} {fault : Regex.Fault} (hassert : options.assertFormats = true)
      (hname : node.string.format = some name) (h : Format.check name text = .error fault) :
      Breaks node options (.str text) (.pattern text fault)

theorem Breaks.asserts {node : SchemaNode} {options : EvaluationOptions} {value : Json}
    {fault : EvaluationFault} (h : node.Breaks options value fault) :
    options.assertFormats = true ∧ fault.isOfDepth = false := by
  cases h with
  | format hassert => exact ⟨hassert, rfl⟩

/-! ## Messages -/

/-- A keyword that the node finds violated by a value, and the message for it. -/
inductive Finds (node : SchemaNode) (value : Json) : String → String → Prop where
  | failure {failure : Failure} (h : failure ∈ node.failures value) :
      Finds node value failure.keyword failure.message
  | format {assertFormats : Bool} {failures : List Failure} {failure : Failure}
      (hformat : node.formatFailures assertFormats value = .ok failures) (h : failure ∈ failures) :
      Finds node value failure.keyword failure.message
  | contains {found : Nat} {failure : Failure} (hcontains : node.array.contains.isSome = true)
      (h : failure ∈ containsFailures node.array found) :
      Finds node value failure.keyword failure.message
  | anyOf (h : node.composition.anyOf ≠ []) :
      Finds node value "anyOf" ("value does not match any of the " ++
        natText node.composition.anyOf.length ++ " subschemas")
  | oneOf (h : node.composition.oneOf ≠ []) (found : List Nat) (count : Nat) :
      Finds node value "oneOf" ("value matches " ++ natText found.length ++ " of " ++
        natText count ++ " subschemas" ++ (if found.isEmpty then ""
          else " (indices [" ++ ", ".intercalate (found.map natText) ++ "])") ++
        ", expected exactly one")
  | not (h : node.composition.negated.isSome = true) :
      Finds node value "not" "value must not match the 'not' schema"

inductive Uses (node : SchemaNode) : Json → Applicator → Prop where
  | firstItem {value : Json} (h : node.array.firstItems ≠ []) :
      Uses node value (.plain node.array.firstItemsKeyword)
  | item {value : Json} (h : node.array.items.isSome = true) (index : Nat) :
      Uses node value ⟨node.array.itemsKeyword,
        "additional item at index " ++ natText index ++ " is not allowed"⟩
  | property {value : Json} (h : node.object.properties ≠ []) :
      Uses node value (.plain "properties")
  | pattern {value : Json} (h : node.object.patternProperties ≠ []) :
      Uses node value (.plain "patternProperties")
  | additional {members : Members Json} {name : String}
      (h : node.object.additionalProperties.isSome = true) (hname : name ∈ members.names) :
      Uses node (.obj members)
        ⟨"additionalProperties", "additional property '" ++ name ++ "' is not allowed"⟩
  | name {members : Members Json} {name : String} (h : node.object.propertyNames.isSome = true)
      (hname : name ∈ members.names) :
      Uses node (.obj members) ⟨"propertyNames", "property name '" ++ name ++ "' is not allowed"⟩
  | dependent {members : Members Json} {name : String} (h : node.object.dependentSchemas ≠ [])
      (hname : name ∈ members.names) :
      Uses node (.obj members) ⟨"dependentSchemas", "property '" ++ name ++ "' is not allowed"⟩
  | composed {value : Json} {keyword : String} (h : (keyword, true) ∈ node.composition.present) :
      Uses node value (.plain keyword)

/-- As `Raises`, with the message that the node has for the violation. -/
inductive Says (node : SchemaNode) (value : Json) (path : Path) : Violation → Prop where
  | refused (hboolean : node.boolean = some false) :
      Says node value path
        ⟨path, "false", "no value is allowed by this schema", node.location⟩
  | own {keyword message : String} (hboolean : node.boolean = none)
      (h : node.Finds value keyword message) :
      Says node value path (node.violation path keyword message)
  | applied {applicator : Applicator} {child : NodeId} {value' : Json} {path' : Path}
      (hboolean : node.boolean = none) (h : node.Uses value applicator)
      (happlies : node.Applies value path child value' path') :
      Says node value path (node.violation path' applicator.keyword applicator.message)

end SchemaNode

/-! ## Checks of the value alone -/

theorem keyword_of_failIf {condition : Bool} {keyword message : String} {failure : Failure}
    (h : failure ∈ failIf condition keyword message) :
    (failure.keyword, true) = (keyword, condition) := by
  unfold failIf at h
  split at h <;> simp_all

theorem keyword_of_failLimit {α : Type} {limit : Option α} {breaks : α → Bool} {keyword : String}
    {message : α → String} {failure : Failure}
    (h : failure ∈ failLimit limit breaks keyword message) :
    (failure.keyword, true) = (keyword, limit.isSome) := by
  cases limit with
  | none => simp [failLimit] at h
  | some l => exact Prod.ext (Prod.mk.inj (keyword_of_failIf h)).1 rfl

section

variable {failure : Failure}

theorem ValueKeywords.present_of_check {keywords : ValueKeywords} {value : Json}
    (h : failure ∈ keywords.checkType value ++ keywords.checkOptions value) :
    (failure.keyword, true) ∈ keywords.present := by
  simp only [checkType, checkOptions, List.mem_append] at h
  rcases h with h | h | h <;> simp [keyword_of_failLimit h, present]

theorem NumberKeywords.present_of_check {keywords : NumberKeywords} {n : Number}
    (h : failure ∈ keywords.check n) : (failure.keyword, true) ∈ keywords.present := by
  simp only [check, List.mem_append] at h
  rcases h with (((h | h) | h) | h) | h <;> simp [keyword_of_failLimit h, present]

theorem StringKeywords.present_of_check {keywords : StringKeywords} {s : String}
    (h : failure ∈ keywords.check s) : (failure.keyword, true) ∈ keywords.present := by
  simp only [check, List.mem_append] at h
  rcases h with (h | h) | h <;> simp [keyword_of_failLimit h, present]

theorem ArrayKeywords.present_of_check {keywords : ArrayKeywords} {items : List Json}
    (h : failure ∈ keywords.check items) : (failure.keyword, true) ∈ keywords.present := by
  simp only [check, List.mem_append] at h
  rcases h with (h | h) | h
  · simp [keyword_of_failLimit h, present]
  · simp [keyword_of_failLimit h, present]
  · have hunique := keyword_of_failLimit h
    cases hset : keywords.uniqueItems <;> simp_all [present]

theorem ObjectKeywords.present_of_check {keywords : ObjectKeywords} {members : Members Json}
    (h : failure ∈ keywords.check members) : (failure.keyword, true) ∈ keywords.present := by
  simp only [check, List.mem_append, List.mem_flatMap] at h
  rcases h with ((⟨name, hname, h⟩ | h) | h) | ⟨entry, hentry, h⟩
  · have hkeyword := keyword_of_failIf h
    simp_all [present, List.ne_nil_of_mem hname]
  · simp [keyword_of_failLimit h, present]
  · simp [keyword_of_failLimit h, present]
  · unfold missingDependencies at h
    split at h
    · obtain ⟨name, -, h⟩ := List.mem_flatMap.mp h
      have hkeyword := keyword_of_failIf h
      simp_all [present, List.ne_nil_of_mem hentry]
    · simp at h

theorem ArrayKeywords.present_of_containsFailures {keywords : ArrayKeywords} {found : Nat}
    (hcontains : keywords.contains.isSome = true)
    (h : failure ∈ SchemaNode.containsFailures keywords found) :
    (failure.keyword, true) ∈ keywords.present := by
  rw [SchemaNode.containsFailures, List.mem_append] at h
  rcases h with h | h
  · split at h
    · have := keyword_of_failIf h
      simp_all [present]
    · have := keyword_of_failIf h
      simp_all [present]
  · simp [keyword_of_failLimit h, present]

end

namespace SchemaNode

variable {node : SchemaNode}

theorem present_of_failures {value : Json} {failure : Failure} (h : failure ∈ node.failures value) :
    node.Has failure.keyword := by
  unfold failures at h
  simp only [Has, present, List.mem_append]
  rcases List.mem_append.mp h with h | h
  · exact .inl (.inl (.inl (.inl (.inl (ValueKeywords.present_of_check h)))))
  · split at h
    · exact .inl (.inl (.inl (.inl (.inr (NumberKeywords.present_of_check h)))))
    · exact .inl (.inl (.inr (ArrayKeywords.present_of_check h)))
    · exact .inl (.inr (ObjectKeywords.present_of_check h))
    · exact .inl (.inl (.inl (.inr (StringKeywords.present_of_check h))))
    · simp at h

theorem formatFailures_eq_error {assertFormats : Bool} {value : Json} {fault : Regex.Fault}
    (h : node.formatFailures assertFormats value = .error fault) :
    ∃ text, value = .str text ∧ assertFormats = true ∧
      ∃ name, node.string.format = some name ∧ Format.check name text = .error fault := by
  unfold formatFailures at h
  split at h
  case h_1 text =>
    split at h
    case isTrue hassert =>
      unfold StringKeywords.checkFormat at h
      split at h
      case h_1 => cases h
      case h_2 name hname =>
        refine ⟨text, rfl, hassert, name, hname, ?_⟩
        cases hcheck : Format.check name text with
        | error e => simpa [hcheck, Except.map] using h
        | ok outcome => simp [hcheck, Except.map] at h
    case isFalse => cases h
  case h_2 => cases h

theorem present_of_formatFailures {assertFormats : Bool} {value : Json} {failures : List Failure}
    {failure : Failure} (h : node.formatFailures assertFormats value = .ok failures)
    (hfailure : failure ∈ failures) : node.Has failure.keyword := by
  have hnone : ∀ {found : List Failure}, (.ok [] : Except Regex.Fault (List Failure)) = .ok found →
      failure ∉ found := by
    rintro found ⟨⟩
    exact List.not_mem_nil
  unfold formatFailures at h
  split at h
  case h_1 text =>
    split at h
    case isTrue =>
      unfold StringKeywords.checkFormat at h
      split at h
      case h_1 => exact absurd hfailure (hnone h)
      case h_2 name hname =>
        obtain ⟨outcome, -, rfl⟩ := Except.map_eq_ok.mp h
        have hkeyword : failure.keyword = "format" := congrArg Prod.fst (keyword_of_failIf hfailure)
        simp [Has, present, StringKeywords.present, hkeyword, hname]
    case isFalse => exact absurd hfailure (hnone h)
  case h_2 => exact absurd hfailure (hnone h)

theorem Finds.has {value : Json} {keyword message : String}
    (h : node.Finds value keyword message) : node.Has keyword := by
  cases h with
  | failure h => exact present_of_failures h
  | format hformat h => exact present_of_formatFailures hformat h
  | contains hcontains h =>
    have hpresent := ArrayKeywords.present_of_containsFailures hcontains h
    simp [Has, present, hpresent]
  | anyOf h | oneOf h | not h => simp [Has, present, Composition.present, h]

theorem Uses.has {value : Json} {applicator : Applicator} (h : node.Uses value applicator) :
    node.Has applicator.keyword := by
  cases h with
  | composed h => exact List.mem_append_right _ h
  | firstItem h | item h => simp [Has, present, ArrayKeywords.present, Applicator.plain, h]
  | property h | pattern h | additional h | name h | dependent h =>
    simp [Has, present, ObjectKeywords.present, Applicator.plain, h]

theorem Says.raises {value : Json} {path : Path} {violation : Violation}
    (h : node.Says value path violation) : node.Raises value path violation := by
  cases h with
  | refused hboolean => exact .refused hboolean _
  | own hboolean h => exact .own hboolean h.has _
  | applied hboolean h happlies => exact .applied hboolean h.has happlies _

end SchemaNode

end JsonSchema

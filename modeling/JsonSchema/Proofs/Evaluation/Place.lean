import JsonSchema.Proofs.Evaluation.Reach
import JsonSchema.Proofs.Pointer.Path
import JsonSchema.Proofs.Schema.Limit

/-!
# Where violations are

Every path that an evaluation reports leads to a value of the instance, and so does its pointer.
-/

namespace JsonSchema

theorem Json.pointable_of_size {document : Json} (hwell : document.isWellFormed = true)
    (hsize : document.size ≤ maxIntegerDigits) : document.Pointable where
  wellFormed := hwell
  indices tokens items hleads := by
    have hlength : ∀ items : List Json, items.length ≤ sizeOfItems items := by
      intro items
      induction items with
      | nil => exact Nat.zero_le _
      | cons item rest ih =>
        have hpos : 0 < item.size := by cases item <;> simp [Json.size]
        rw [List.length_cons, sizeOfItems]
        omega
    have hinner := hleads.at.size_le
    rw [Json.size] at hinner
    calc items.length ≤ sizeOfItems items := hlength items
      _ ≤ maxIntegerDigits := by omega
      _ ≤ 10 ^ maxIntegerDigits := (Nat.lt_pow_self (by decide)).le

/-- The path leads to the value, or else to the object that has the value as a name. -/
def StandsAt (instance_ value : Json) (path : Path) : Prop :=
  ∃ place, instance_.along? path = some place ∧ (value = place ∨ ∃ name, value = .str name)

variable {instance_ value value' : Json} {path path' : Path} {schema : CompiledSchema}
  {options : EvaluationOptions} {node : SchemaNode} {child : NodeId}

theorem standsAt_root (instance_ : Json) : StandsAt instance_ instance_ [] :=
  ⟨instance_, rfl, .inl rfl⟩

/-! ## One step -/

theorem StandsAt.applies (hinstance : instance_.isWellFormed = true)
    (h : StandsAt instance_ value path) (happlies : node.Applies value path child value' path') :
    StandsAt instance_ value' path' := by
  obtain ⟨place, hplace, hvalue⟩ := h
  cases happlies with
  | inPlace => exact ⟨place, hplace, hvalue⟩
  | item _ hitem =>
    rcases hvalue with rfl | ⟨name, hname⟩
    · refine ⟨value', ?_, .inl rfl⟩
      rw [Json.along?_concat, hplace]
      simpa [Json.child?] using hitem
    · cases hname
  | member _ hmember =>
    rcases hvalue with rfl | ⟨name, hname⟩
    · have hnames := Json.isWellFormed_names
        ((Json.leads_of_along? hplace).at.isWellFormed hinstance)
      refine ⟨value', ?_, .inl rfl⟩
      rw [Json.along?_concat, hplace]
      exact Members.get?_of_mem hnames hmember
    · cases hname
  | name => exact ⟨place, hplace, .inr ⟨_, rfl⟩⟩

theorem SchemaNode.Raises.stands {violation : Violation} (hinstance : instance_.isWellFormed = true)
    (h : StandsAt instance_ value path) (hraises : node.Raises value path violation) :
    ∃ place, instance_.along? violation.path = some place := by
  cases hraises with
  | refused | own => exact h.imp fun _ hplace => hplace.1
  | applied _ _ happlies => exact (h.applies hinstance happlies).imp fun _ hplace => hplace.1

/-! ## Whole evaluations -/

theorem StandsAt.reaches {visit next : Visit} (hinstance : instance_.isWellFormed = true)
    (h : StandsAt instance_ visit.value visit.path) (hreach : schema.Reaches visit next) :
    StandsAt instance_ next.value next.path := by
  induction hreach with
  | refl => exact h
  | tail _ hnext ih =>
    obtain ⟨node, -, happlies⟩ := hnext
    exact ih.applies hinstance happlies

namespace CompiledSchema

/--
The path of a violation leads to a value of the instance, and the pointer that is reported for it
leads to the same value. The place where the depth is exceeded is there in the same way.
-/
theorem reported_places_exist (hinstance : instance_.Pointable) :
    (∀ violations, schema.validate options instance_ = .ok violations →
      ∀ violation ∈ violations, ∃ value, instance_.along? violation.path = some value ∧
        Pointer.follow instance_ violation.pointer = .ok value) ∧
      (∀ maxDepth pointer, schema.validate options instance_ = .error (.tooDeep maxDepth pointer) →
        ∃ path value, Path.pointer path = pointer ∧ instance_.along? path = some value ∧
          Pointer.follow instance_ pointer = .ok value) := by
  have hreached : ∀ {there}, schema.Reaches (.root instance_) there →
      StandsAt instance_ there.value there.path :=
    StandsAt.reaches hinstance.wellFormed (standsAt_root instance_)
  constructor
  · intro violations hvalidate violation hmem
    obtain ⟨there, node, hreach, hsource⟩ := source_of_validate hvalidate hmem
    obtain ⟨value, hplace⟩ := hsource.raises.stands hinstance.wellFormed (hreached hreach)
    exact ⟨value, hplace, Pointer.follow_of_along? hinstance hplace⟩
  · intro maxDepth pointer hvalidate
    obtain ⟨there, hreach, hfails⟩ := fails_of_validate hvalidate
    obtain ⟨value, hplace, -⟩ := hreached hreach
    cases hfails with
    | tooDeep => exact ⟨there.path, value, rfl, hplace, Pointer.follow_of_along? hinstance hplace⟩
    | format _ hbreaks => exact Bool.noConfusion hbreaks.asserts.2

def markedNames : Json := .obj [("", .obj [("~/#%", .arr [.int 7]), ("0", .null)])]

/-- One violation is for a name, which has no path of its own, and one is inside of three values. -/
theorem markedNames_reported : ∃ schema violations,
    (runCompile ⟨10, false, []⟩ (.obj [("additionalProperties", .obj [("$ref", .str "#")]),
      ("items", .obj [("type", .str "string")]),
      ("propertyNames", .obj [("maxLength", .int 3)])])).result = .ok schema ∧
      schema.validate ⟨10, false⟩ markedNames = .ok violations ∧
      violations.map (fun violation => (violation.path, violation.keyword, violation.pointer)) =
        [([.name "", .name "~/#%", .index 0], "type", "//~0~1#%/0"),
          ([.name ""], "maxLength", "/")] ∧
      ∀ violation ∈ violations, ∃ value, markedNames.along? violation.path = some value ∧
        Pointer.follow markedNames violation.pointer = .ok value := by
  have hrun : (runCompile ⟨10, false, []⟩ (.obj [("additionalProperties", .obj [("$ref", .str "#")]),
      ("items", .obj [("type", .str "string")]),
      ("propertyNames", .obj [("maxLength", .int 3)])])).result.toOption.bind (fun schema =>
        (schema.validate ⟨10, false⟩ markedNames).toOption.map fun violations =>
          violations.map fun violation => (violation.path, violation.keyword, violation.pointer)) =
      some [([.name "", .name "~/#%", .index 0], "type", "//~0~1#%/0"),
        ([.name ""], "maxLength", "/")] := by
    decide +kernel
  simp only [Option.bind_eq_some_iff, Option.map_eq_some_iff, Except.toOption_eq_some] at hrun
  obtain ⟨schema, hschema, violations, hvalidate, hfound⟩ := hrun
  have hpointable : markedNames.Pointable :=
    Json.pointable_of_size (by decide +kernel) (by decide +kernel)
  exact ⟨schema, violations, hschema, hvalidate, hfound,
    (reported_places_exist hpointable).1 violations hvalidate⟩

end CompiledSchema

end JsonSchema

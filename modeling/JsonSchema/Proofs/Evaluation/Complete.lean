import JsonSchema.Proofs.Evaluation.Asked
import JsonSchema.Proofs.Evaluation.Place
import JsonSchema.Proofs.Evaluation.Shown

/-!
# Complete reports

A report has a violation for each keyword that is violated where an evaluation comes along, and it
has no other violations. Conditions, negated schemas, schemas that items are counted by, and the
branches beside one that holds have no say in it.
-/

namespace JsonSchema

open Relation

/-- The value stands at the path, or it is a name of the object that stands there. -/
inductive Occupies (instance_ : Json) : Json → Path → Prop where
  | value {value : Json} {path : Path} (h : instance_.along? path = some value) :
      Occupies instance_ value path
  | name {members : Members Json} {name : String} {path : Path}
      (h : instance_.along? path = some (.obj members)) (hname : name ∈ members.names) :
      Occupies instance_ (.str name) path

namespace CompiledSchema

/--
An evaluation goes on from one visit to the other one: along a reference, or because a keyword asks
for it. A schema that allows no value is not visited by the keyword that asks for it.
-/
inductive Follows (schema : CompiledSchema) (assertFormats : Bool) (visit : Visit) : Visit → Prop where
  | reference {node : SchemaNode} {child : NodeId} (hnode : schema.node? visit.id = some node)
      (hboolean : node.boolean = none) (h : node.refTarget = some child) :
      Follows schema assertFormats visit ⟨child, visit.value, visit.path⟩
  | asked {node : SchemaNode} {keyword : String} {next : Visit}
      (hnode : schema.node? visit.id = some node) (hboolean : node.boolean = none)
      (h : node.Asks (schema.Satisfies assertFormats) visit.value visit.path keyword next)
      (hallowed : ¬ schema.Refuses next.id) : Follows schema assertFormats visit next

/-- As `Follows`, and besides into a branch, where no branch holds of the value. -/
inductive Reveals (schema : CompiledSchema) (assertFormats : Bool) (visit : Visit) : Visit → Prop where
  | handed {node : SchemaNode} {child : NodeId} (hnode : schema.node? visit.id = some node)
      (hboolean : node.boolean = none)
      (h : node.Hands (schema.Satisfies assertFormats) visit.value child) :
      Reveals schema assertFormats visit ⟨child, visit.value, visit.path⟩
  | follows {next : Visit} (h : schema.Follows assertFormats visit next) :
      Reveals schema assertFormats visit next

inductive Owes (schema : CompiledSchema) (assertFormats : Bool) (visit : Visit) :
    Json → Path → String → String → Prop where
  | refused {node : SchemaNode} (hnode : schema.node? visit.id = some node)
      (hboolean : node.boolean = some false) :
      Owes schema assertFormats visit visit.value visit.path "false" node.location
  | violated {node : SchemaNode} {keyword : String} (hnode : schema.node? visit.id = some node)
      (hboolean : node.boolean = none)
      (h : node.Violates assertFormats (schema.Satisfies assertFormats) visit.value keyword) :
      Owes schema assertFormats visit visit.value visit.path keyword (node.keywordPath keyword)
  | forbidden {node : SchemaNode} {keyword : String} {next : Visit}
      (hnode : schema.node? visit.id = some node) (hboolean : node.boolean = none)
      (h : node.Asks (schema.Satisfies assertFormats) visit.value visit.path keyword next)
      (hrefuses : schema.Refuses next.id) :
      Owes schema assertFormats visit next.value next.path keyword (node.keywordPath keyword)

variable {schema : CompiledSchema} {options : EvaluationOptions} {budget : Nat} {start next : Visit}
  {violation : Violation} {violations : Violations}

/-! ## One level -/

theorem owes_or_reveals (h : schema.visit options (budget + 1) start = .ok violations)
    (hmem : violation ∈ violations) :
    (∃ value, schema.Owes options.assertFormats start value violation.path violation.keyword
        violation.schemaPath) ∨
      ∃ next found, schema.Reveals options.assertFormats start next ∧
        schema.visit options budget next = .ok found ∧ violation ∈ found := by
  rw [visit_succ] at h
  cases hnode : schema.node? start.id with
  | none =>
    simp only [hnode, Except.ok.injEq] at h
    cases h ▸ hmem
  | some node =>
    simp only [hnode] at h
    cases hboolean : node.boolean with
    | some allows =>
      unfold SchemaNode.violations at h
      cases allows with
      | true =>
        simp only [hboolean, Except.ok.injEq] at h
        cases h ▸ hmem
      | false =>
        simp only [hboolean, Except.ok.injEq] at h
        obtain rfl := List.mem_singleton.mp (h ▸ hmem)
        exact .inl ⟨start.value, .refused hnode hboolean⟩
    | none =>
      obtain ⟨told, gathered, hparts, htells, hgathers⟩ :=
        SchemaNode.divides_violations hboolean (evaluate_decides_satisfies budget) h
      rcases (hparts violation).mp hmem with hmem | hmem
      · rcases htells.sound violation hmem with ⟨keyword, message, hviolated, rfl⟩ |
          ⟨child, found, hhands, happly, hmem⟩
        · exact .inl ⟨start.value, .violated hnode hboolean hviolated⟩
        · exact .inr ⟨⟨child, start.value, start.path⟩, found, .handed hnode hboolean hhands, happly,
            hmem⟩
      · obtain ⟨keyword, next, found, hasks, hanswers, hmem⟩ := hgathers.sound violation hmem
        cases hanswers with
        | refused hrefuses message =>
          obtain rfl := List.mem_singleton.mp hmem
          exact .inl ⟨next.value, .forbidden hnode hboolean hasks hrefuses⟩
        | applied hallowed happly =>
          exact .inr ⟨next, found, .follows (.asked hnode hboolean hasks hallowed), happly, hmem⟩

theorem mem_of_owes {value : Json} {path : Path} {keyword schemaPath : String}
    (h : schema.visit options (budget + 1) start = .ok violations)
    (howes : schema.Owes options.assertFormats start value path keyword schemaPath) :
    ∃ violation ∈ violations, violation.path = path ∧ violation.keyword = keyword ∧
      violation.schemaPath = schemaPath := by
  rw [visit_succ] at h
  cases howes with
  | refused hnode hboolean =>
    simp only [hnode, SchemaNode.violations, hboolean, Except.ok.injEq] at h
    exact ⟨_, h ▸ List.mem_singleton_self _, rfl, rfl, rfl⟩
  | violated hnode hboolean hviolates =>
    simp only [hnode] at h
    obtain ⟨told, gathered, hparts, htells, -⟩ :=
      SchemaNode.divides_violations hboolean (evaluate_decides_satisfies budget) h
    obtain ⟨message, hmem⟩ := htells.complete keyword hviolates
    exact ⟨_, (hparts _).mpr (.inl hmem), rfl, rfl, rfl⟩
  | forbidden hnode hboolean hasks hrefuses =>
    simp only [hnode] at h
    obtain ⟨told, gathered, hparts, -, hgathers⟩ :=
      SchemaNode.divides_violations hboolean (evaluate_decides_satisfies budget) h
    obtain ⟨found, hanswers, hsubset⟩ := hgathers.complete keyword _ hasks
    cases hanswers with
    | refused _ message =>
      exact ⟨_, (hparts _).mpr (.inr (hsubset (List.mem_singleton_self _))), rfl, rfl, rfl⟩
    | applied hallowed => exact (hallowed hrefuses).elim

theorem subset_of_follows (h : schema.visit options (budget + 1) start = .ok violations)
    (hfollows : schema.Follows options.assertFormats start next) :
    ∃ found, schema.visit options budget next = .ok found ∧ found ⊆ violations := by
  rw [visit_succ] at h
  cases hfollows with
  | reference hnode hboolean htarget =>
    simp only [hnode] at h
    exact SchemaNode.target_subset hboolean htarget h
  | asked hnode hboolean hasks hallowed =>
    simp only [hnode] at h
    obtain ⟨told, gathered, hparts, -, hgathers⟩ :=
      SchemaNode.divides_violations hboolean (evaluate_decides_satisfies budget) h
    obtain ⟨found, hanswers, hsubset⟩ := hgathers.complete _ next hasks
    cases hanswers with
    | refused hrefuses => exact (hallowed hrefuses).elim
    | applied _ happly =>
      exact ⟨found, happly, fun violation hmem => (hparts violation).mpr (.inr (hsubset hmem))⟩

/-! ## All levels -/

theorem exists_owes (h : schema.visit options budget start = .ok violations)
    (hmem : violation ∈ violations) :
    ∃ there value, ReflTransGen (schema.Reveals options.assertFormats) start there ∧
      schema.Owes options.assertFormats there value violation.path violation.keyword
        violation.schemaPath := by
  induction budget generalizing start violations with
  | zero => cases h
  | succ budget ih =>
    rcases owes_or_reveals h hmem with ⟨value, howes⟩ | ⟨next, found, hreveals, hvisit, hmem⟩
    · exact ⟨start, value, .refl, howes⟩
    · obtain ⟨there, value, hreach, howes⟩ := ih hvisit hmem
      exact ⟨there, value, .head hreveals hreach, howes⟩

/-- Whatever an evaluation follows has its whole report in the report of the start. -/
theorem subset_of_reach {there : Visit}
    (hreach : ReflTransGen (schema.Follows options.assertFormats) start there)
    (h : schema.visit options budget start = .ok violations) :
    ∃ budget found, schema.visit options (budget + 1) there = .ok found ∧ found ⊆ violations := by
  induction hreach using ReflTransGen.head_induction_on generalizing budget violations with
  | refl =>
    cases budget with
    | zero => cases h
    | succ budget => exact ⟨budget, violations, h, List.Subset.refl violations⟩
  | head hfollows _ ih =>
    cases budget with
    | zero => cases h
    | succ budget =>
      obtain ⟨found, hvisit, hsubset⟩ := subset_of_follows h hfollows
      obtain ⟨budget', inner, hinner, hsubset'⟩ := ih hvisit
      exact ⟨budget', inner, hinner, List.Subset.trans hsubset' hsubset⟩

/-! ## Places -/

/-- What the report of an instance has to account for, and what it may hold. -/
structure Accounts (schema : CompiledSchema) (assertFormats : Bool) (instance_ : Json)
    (violations : Violations) : Prop where
  sound : ∀ violation ∈ violations, ∃ visit value,
    ReflTransGen (schema.Reveals assertFormats) (.root instance_) visit ∧
      Occupies instance_ value violation.path ∧
      schema.Owes assertFormats visit value violation.path violation.keyword violation.schemaPath
  complete : ∀ visit, ReflTransGen (schema.Follows assertFormats) (.root instance_) visit →
    ∀ value path keyword schemaPath, schema.Owes assertFormats visit value path keyword schemaPath →
      ∃ violation ∈ violations, violation.path = path ∧ violation.keyword = keyword ∧
        violation.schemaPath = schemaPath

end CompiledSchema

section

variable {instance_ value value' : Json} {path path' : Path} {node : SchemaNode} {child : NodeId}
  {sat : NodeId → Json → Prop} {keyword : String} {next : Visit}

theorem SchemaNode.Asks.applies (h : node.Asks sat value path keyword next) :
    node.Applies value path next.id next.value next.path := by
  cases h with
  | item hitem h =>
    cases h with
    | first h => exact .item (by simp [forItems, List.mem_of_getElem? h]) hitem
    | further _ h => exact .item (by simp [forItems, h]) hitem
  | object h =>
    cases h with
    | property hmember h =>
      have hmem : ∀ child, child ∈ node.forMembers ↔
          (∃ name, (name, child) ∈ node.object.properties) ∨
            (∃ entry ∈ node.object.patternProperties, entry.node = child) ∨
              node.object.additionalProperties = some child := by
        simp [forMembers]
      cases h with
      | named h => exact .member ((hmem _).mpr (.inl ⟨_, Members.mem_of_get? h⟩)) hmember
      | matched h _ => exact .member ((hmem _).mpr (.inr (.inl ⟨_, h, rfl⟩))) hmember
      | additional _ h => exact .member ((hmem _).mpr (.inr (.inr h))) hmember
    | name hname h => exact .name h hname
    | dependent h _ =>
      refine .inPlace ?_
      simp only [inPlace, List.mem_append, List.mem_map]
      exact .inr ⟨_, h, rfl⟩
  | composition h =>
    cases h with
    | allOf h | consequent _ _ h | alternative _ _ h => exact .inPlace (by simp [inPlace, h])

theorem SchemaNode.Hands.mem_inPlace (h : node.Hands sat value child) : child ∈ node.inPlace := by
  cases h <;> simp_all [inPlace]

theorem Occupies.applies (hinstance : instance_.isWellFormed = true)
    (h : Occupies instance_ value path) (happlies : node.Applies value path child value' path') :
    Occupies instance_ value' path' := by
  cases happlies with
  | inPlace => exact h
  | item _ hitem =>
    cases h with
    | value hplace =>
      refine .value ?_
      rw [Json.along?_concat, hplace]
      simpa [Json.child?] using hitem
  | member _ hmember =>
    cases h with
    | value hplace =>
      have hnames := Json.isWellFormed_names
        ((Json.leads_of_along? hplace).at.isWellFormed hinstance)
      refine .value ?_
      rw [Json.along?_concat, hplace]
      exact Members.get?_of_mem hnames hmember
  | name _ hname =>
    cases h with
    | value hplace => exact .name hplace hname

end

namespace CompiledSchema

variable {schema : CompiledSchema} {options : EvaluationOptions} {instance_ value : Json}
  {path : Path} {keyword schemaPath : String} {visit next : Visit} {violations : Violations}

theorem Reveals.applies {assertFormats : Bool} (h : schema.Reveals assertFormats visit next) :
    schema.Applies visit next := by
  cases h with
  | handed hnode _ h => exact ⟨_, hnode, .inPlace h.mem_inPlace⟩
  | follows h =>
    cases h with
    | reference hnode _ h => exact ⟨_, hnode, .inPlace (by simp [SchemaNode.inPlace, h])⟩
    | asked hnode _ h _ => exact ⟨_, hnode, h.applies⟩

theorem occupies_of_reveals {assertFormats : Bool} (hinstance : instance_.isWellFormed = true)
    (h : ReflTransGen (schema.Reveals assertFormats) (.root instance_) visit) :
    Occupies instance_ visit.value visit.path := by
  induction h with
  | refl => exact .value rfl
  | tail _ hreveals ih =>
    obtain ⟨node, -, happlies⟩ := hreveals.applies
    exact ih.applies hinstance happlies

theorem Owes.occupies {assertFormats : Bool} (hinstance : instance_.isWellFormed = true)
    (h : schema.Owes assertFormats visit value path keyword schemaPath)
    (hvisit : Occupies instance_ visit.value visit.path) : Occupies instance_ value path := by
  cases h with
  | refused | violated => exact hvisit
  | forbidden _ _ hasks => exact hvisit.applies hinstance hasks.applies

/--
A validation that returns reports every keyword that is violated where it comes along, with its
path and its place in the schema, and every violation of its report is such a keyword.
-/
theorem validation_accounts (hinstance : instance_.isWellFormed = true)
    (h : schema.validateShown options instance_ = .ok violations) :
    schema.Accounts options.assertFormats instance_ violations := by
  have hvalidate : schema.validate options instance_ = .ok violations := by
    rcases validateShown_shows schema options instance_ with hlong | hshown
    · cases hlong.symm.trans h
    · exact hshown ▸ h
  rw [validate_eq_visit] at hvalidate
  constructor
  · intro violation hmem
    obtain ⟨there, value, hreach, howes⟩ := exists_owes hvalidate hmem
    exact ⟨there, value, hreach, howes.occupies hinstance (occupies_of_reveals hinstance hreach),
      howes⟩
  · intro there hreach value path keyword schemaPath howes
    obtain ⟨budget, found, hvisit, hsubset⟩ := subset_of_reach hreach hvalidate
    obtain ⟨violation, hmem, hviolation⟩ := mem_of_owes hvisit howes
    exact ⟨violation, hsubset hmem, hviolation⟩

def entriesDocument : Json :=
  .obj [("properties", .obj [("b", .obj [("$ref", .str "#")])]),
    ("patternProperties", .obj [("^a", .obj [("anyOf", .arr [.obj [("type", .str "string")],
      .obj [("type", .str "number"), ("maximum", .int 3)]])])]),
    ("additionalProperties", .bool false), ("propertyNames", .obj [("maxLength", .int 2)]),
    ("if", .obj [("required", .arr [.str "c"])]), ("then", .obj [("maxProperties", .int 0)])]

def entries : Json := .obj [("a", .int 4), ("a1", .int 3), ("b", .obj [("abc", .null), ("c", .null)])]

/-- Of the branches that fail the closest is shown, of the condition nothing, and of `b` everything. -/
theorem entries_accounted : ∃ schema violations,
    (runCompile ⟨10, false, []⟩ entriesDocument).result = .ok schema ∧
      schema.validateShown ⟨10, false⟩ entries = .ok violations ∧
      violations.map (fun violation => (violation.pointer, violation.keyword, violation.schemaPath)) =
        [("/a", "anyOf", "#/patternProperties/^a/anyOf"),
          ("/a", "type", "#/patternProperties/^a/anyOf/0/type"),
          ("/b/abc", "anyOf", "#/patternProperties/^a/anyOf"),
          ("/b/abc", "type", "#/patternProperties/^a/anyOf/0/type"),
          ("/b/c", "additionalProperties", "#/additionalProperties"),
          ("/b", "maxLength", "#/propertyNames/maxLength"),
          ("/b", "maxProperties", "#/then/maxProperties")] ∧
      schema.Accounts false entries violations := by
  have hrun : (runCompile ⟨10, false, []⟩ entriesDocument).result.toOption.bind (fun schema =>
        (schema.validateShown ⟨10, false⟩ entries).toOption.map fun violations =>
          violations.map fun violation =>
            (violation.pointer, violation.keyword, violation.schemaPath)) =
      some [("/a", "anyOf", "#/patternProperties/^a/anyOf"),
          ("/a", "type", "#/patternProperties/^a/anyOf/0/type"),
          ("/b/abc", "anyOf", "#/patternProperties/^a/anyOf"),
          ("/b/abc", "type", "#/patternProperties/^a/anyOf/0/type"),
          ("/b/c", "additionalProperties", "#/additionalProperties"),
          ("/b", "maxLength", "#/propertyNames/maxLength"),
          ("/b", "maxProperties", "#/then/maxProperties")] := by
    decide +kernel
  simp only [Option.bind_eq_some_iff, Option.map_eq_some_iff, Except.toOption_eq_some] at hrun
  obtain ⟨schema, hschema, violations, hvalidate, hfound⟩ := hrun
  exact ⟨schema, violations, hschema, hvalidate, hfound,
    validation_accounts (by decide +kernel) hvalidate⟩

end CompiledSchema

end JsonSchema

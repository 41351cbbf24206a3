import JsonSchema.Proofs.Interpreter.Simulation
import JsonSchema.Proofs.Schema.WellFormed

/-!
# Keywords for dependencies

Three keywords of a schema object tell what a property asks for when it is present. A node has one
table of names and one of schemas for them, and what the older keyword says of a property takes the
place of what the newer one of the same form says of it.
-/

namespace JsonSchema

open CompileM

/-! ## What the keywords ask -/

inductive DependencyForm where
  | names | schema
deriving DecidableEq

def Json.dependencyForm : Json → DependencyForm
  | .arr _ => .names
  | _ => .schema

namespace Members

def entry? (schema : Members Json) (keyword trigger : String) : Option Json :=
  (schema.membersAt keyword).get? trigger

/-- The form in which the older keyword names a trigger. -/
def olderForm? (schema : Members Json) (trigger : String) : Option DependencyForm :=
  (schema.entry? "dependencies" trigger).map Json.dependencyForm

end Members

/--
What a schema object asks of an object that has the trigger. `counts` tells which forms of the
newer keywords count, and `holds` whether the object satisfies the schema of a keyword.
-/
structure DependenciesMet (schema : Members Json) (counts : DependencyForm → Prop)
    (holds : String → Prop) (object : Members Json) (trigger : String) : Prop where
  required : counts .names → ∀ names, schema.entry? "dependentRequired" trigger = some (.arr names) →
    ∀ name, .str name ∈ names → object.has name = true
  schemas : counts .schema → (schema.entry? "dependentSchemas" trigger).isSome = true →
    holds "dependentSchemas"
  olderRequired : ∀ names, schema.entry? "dependencies" trigger = some (.arr names) →
    ∀ name, .str name ∈ names → object.has name = true
  olderSchemas : schema.olderForm? trigger = some .schema → holds "dependencies"

/-! ## The tables of a node -/

theorem mem_of_mapM_string? {items : List Json} {names : List String}
    (h : items.mapM Json.string? = some names) (name : String) : .str name ∈ items ↔ name ∈ names := by
  induction items generalizing names with
  | nil => simp_all
  | cons item rest ih =>
    simp only [List.mapM_cons, Option.bind_eq_bind, Option.bind_eq_some_iff, Option.pure_def,
      Option.some.injEq] at h
    obtain ⟨first, hfirst, others, hothers, rfl⟩ := h
    obtain rfl : item = .str first := by
      cases item <;> simp_all [Json.string?]
    simp [ih hothers]

structure OlderLookup (c : Compilation) (site : Site) (done : Dependencies) (found : Option Json)
    (result : Dependencies) (trigger : String) : Prop where
  names : ∀ items, found = some (.arr items) → ∃ names, items.mapM Json.string? = some names ∧
    result.names.get? trigger = some names
  keepsNames : found.map Json.dependencyForm ≠ some .names →
    result.names.get? trigger = done.names.get? trigger
  schema : ∀ value, found = some value → value.dependencyForm = .schema →
    ∃ id, ChildNode c site "dependencies" [trigger] value id ∧
      result.schemas.get? trigger = some id
  keepsSchemas : found.map Json.dependencyForm ≠ some .schema →
    result.schemas.get? trigger = done.schemas.get? trigger

variable {c : Compilation} {site : Site}

theorem OlderLookup.of_done {done done' result : Dependencies} {found : Option Json}
    {trigger : String} (h : OlderLookup c site done found result trigger)
    (hnames : done.names.get? trigger = done'.names.get? trigger)
    (hschemas : done.schemas.get? trigger = done'.schemas.get? trigger) :
    OlderLookup c site done' found result trigger :=
  ⟨h.names, fun hform => (h.keepsNames hform).trans hnames, h.schema,
    fun hform => (h.keepsSchemas hform).trans hschemas⟩

theorem OlderDependencies.lookup {done result : Dependencies} {older : Members Json}
    (h : OlderDependencies c site done older result) (hnodup : older.names.Nodup)
    (trigger : String) : OlderLookup c site done (older.get? trigger) result trigger := by
  induction h with
  | none done => exact ⟨by simp [Members.get?], fun _ => rfl, by simp [Members.get?], fun _ => rfl⟩
  | @names done result rest name items required hnames _ ih =>
    rw [Members.names, List.map_cons, List.nodup_cons] at hnodup
    have hrest := ih hnodup.2
    rw [Members.get?_cons]
    split
    case isTrue heq =>
      subst heq
      -- The name does not come again, so its entry is the one that is put here.
      rw [Members.get?_eq_none_iff.mpr hnodup.1] at hrest
      obtain ⟨_, hitems, hrequired⟩ := Interpreter.items_of_stringList hnames
      obtain rfl := Json.arr.inj hitems
      have hput := hrest.keepsNames (by simp)
      rw [Members.get?_put, if_pos rfl] at hput
      refine ⟨?_, fun hform => absurd rfl hform, ?_, fun _ => hrest.keepsSchemas (by simp)⟩
      · intro items' hsome
        obtain rfl := Json.arr.inj (Option.some.inj hsome)
        exact ⟨required, hrequired, hput⟩
      · intro value hsome hform
        rw [← Option.some.inj hsome] at hform
        cases hform
    case isFalse hne =>
      refine hrest.of_done ?_ rfl
      rw [Members.get?_put, if_neg hne]
  | @schema done result rest name value id hvalue hnode _ ih =>
    rw [Members.names, List.map_cons, List.nodup_cons] at hnodup
    have hrest := ih hnodup.2
    have hform : value.dependencyForm = .schema := by
      cases value with
      | arr items => exact absurd rfl (hvalue items)
      | _ => rfl
    rw [Members.get?_cons]
    split
    case isTrue heq =>
      subst heq
      rw [Members.get?_eq_none_iff.mpr hnodup.1] at hrest
      have hput := hrest.keepsSchemas (by simp)
      rw [Members.get?_put, if_pos rfl] at hput
      refine ⟨?_, fun _ => hrest.keepsNames (by simp), ?_, ?_⟩
      · intro items hsome
        exact absurd (Option.some.inj hsome) (hvalue items)
      · intro value' hsome _
        obtain rfl := Option.some.inj hsome
        exact ⟨id, hnode, hput⟩
      · intro hother
        exact absurd (congrArg some hform) hother
    case isFalse hne =>
      refine hrest.of_done rfl ?_
      rw [Members.get?_put, if_neg hne]

theorem membersAt_names_nodup {schema : Members Json} (h : (Json.obj schema).isWellFormed = true)
    (keyword : String) : (schema.membersAt keyword).names.Nodup := by
  unfold Members.membersAt
  split
  case h_1 members hget =>
    exact Json.isWellFormed_names (Json.isWellFormed_member h (Members.mem_of_get? hget))
  case h_2 => exact List.nodup_nil

theorem olderForm_names {schema : Members Json} {trigger : String}
    (h : schema.olderForm? trigger = some .names) :
    ∃ items, schema.entry? "dependencies" trigger = some (.arr items) := by
  obtain ⟨value, hentry, hform⟩ := Option.map_eq_some_iff.mp h
  cases value with
  | arr items => exact ⟨items, hentry⟩
  | _ => cases hform

theorem lists_iff {schema : Members Json} {done result : Dependencies} {trigger : String}
    (hlookup : OlderLookup c site done (schema.entry? "dependencies" trigger) result trigger)
    (hlisted : Option.Rel (fun names value => stringList "dependentRequired" value = .ok names)
      (done.names.get? trigger) (schema.entry? "dependentRequired" trigger)) (p : String → Prop) :
    (∀ names ∈ result.names.get? trigger, ∀ name ∈ names, p name) ↔
      (schema.olderForm? trigger ≠ some .names →
        ∀ items, schema.entry? "dependentRequired" trigger = some (.arr items) →
          ∀ name, .str name ∈ items → p name) ∧
      ∀ items, schema.entry? "dependencies" trigger = some (.arr items) →
        ∀ name, .str name ∈ items → p name := by
  by_cases hform : schema.olderForm? trigger = some .names
  · obtain ⟨items, hentry⟩ := olderForm_names hform
    obtain ⟨names, hnames, hget⟩ := hlookup.names items hentry
    simp [hform, hentry, hget, mem_of_mapM_string? hnames]
  · have holder : ∀ items, schema.entry? "dependencies" trigger ≠ some (.arr items) := by
      intro items hentry
      rw [Members.olderForm?, hentry] at hform
      exact hform rfl
    rw [hlookup.keepsNames hform]
    generalize done.names.get? trigger = found at hlisted
    generalize schema.entry? "dependentRequired" trigger = entry at hlisted
    cases hlisted with
    | none => simp [holder]
    | some hread =>
      obtain ⟨items, rfl, hitems⟩ := Interpreter.items_of_stringList hread
      simp [hform, holder, mem_of_mapM_string? hitems]

theorem schemas_iff {schema : Members Json} {done result : Dependencies} {trigger : String}
    {sat : NodeId → Prop} {holds : String → Prop}
    (hlookup : OlderLookup c site done (schema.entry? "dependencies" trigger) result trigger)
    (hdependent : Option.Rel (fun id value => ChildNode c site "dependentSchemas" [trigger] value id)
      (done.schemas.get? trigger) (schema.entry? "dependentSchemas" trigger))
    (hholds : ∀ keyword value id, ChildNode c site keyword [trigger] value id →
      (sat id ↔ holds keyword)) :
    (∀ id ∈ result.schemas.get? trigger, sat id) ↔
      (schema.olderForm? trigger ≠ some .schema →
        (schema.entry? "dependentSchemas" trigger).isSome = true → holds "dependentSchemas") ∧
      (schema.olderForm? trigger = some .schema → holds "dependencies") := by
  by_cases hform : schema.olderForm? trigger = some .schema
  · obtain ⟨value, hentry, hvalue⟩ := Option.map_eq_some_iff.mp hform
    obtain ⟨id, hnode, hget⟩ := hlookup.schema value hentry hvalue
    simp [hform, hget, hholds _ _ _ hnode]
  · rw [hlookup.keepsSchemas hform]
    generalize done.schemas.get? trigger = found at hdependent
    generalize schema.entry? "dependentSchemas" trigger = entry at hdependent
    cases hdependent with
    | none => simp [hform]
    | some hnode => simp [hform, hholds _ _ _ hnode]

theorem DependencyReading.met_iff {schema : Members Json} {dependencies : Dependencies}
    (h : DependencyReading c site schema dependencies)
    (hwell : (Json.obj schema).isWellFormed = true) {sat : NodeId → Prop} {holds : String → Prop}
    (trigger : String)
    (hholds : ∀ keyword value id, ChildNode c site keyword [trigger] value id →
      (sat id ↔ holds keyword)) (object : Members Json) :
    (∀ names ∈ dependencies.names.get? trigger, ∀ name ∈ names, object.has name = true) ∧
        (∀ id ∈ dependencies.schemas.get? trigger, sat id) ↔
      DependenciesMet schema (fun form => schema.olderForm? trigger ≠ some form) holds object
        trigger := by
  obtain ⟨names, schemas, hnames, hmembers, holder⟩ := h
  have hlookup := holder.lookup (membersAt_names_nodup hwell _) trigger
  have hlisted := Members.rel_get?
    (fun _ names value => stringList "dependentRequired" value = .ok names)
    (Interpreter.readNameLists_same hnames) trigger
  have hdependent := Members.rel_get?
    (fun name id value => ChildNode c site "dependentSchemas" [name] value id) hmembers trigger
  rw [lists_iff hlookup hlisted, schemas_iff hlookup hdependent hholds]
  constructor
  · rintro ⟨⟨hrequired, holderRequired⟩, hschemas, holderSchemas⟩
    exact ⟨hrequired, hschemas, holderRequired, holderSchemas⟩
  · rintro ⟨hrequired, hschemas, holderRequired, holderSchemas⟩
    exact ⟨⟨hrequired, holderRequired⟩, hschemas, holderSchemas⟩

theorem OlderDependencies.nodup {done result : Dependencies} {older : Members Json}
    (h : OlderDependencies c site done older result) (hnames : done.names.names.Nodup)
    (hschemas : done.schemas.names.Nodup) :
    result.names.names.Nodup ∧ result.schemas.names.Nodup := by
  induction h with
  | none => exact ⟨hnames, hschemas⟩
  | names _ _ ih => exact ih (Members.nodup_put hnames) hschemas
  | schema _ _ _ ih => exact ih hnames (Members.nodup_put hschemas)

theorem DependencyReading.nodup {schema : Members Json} {dependencies : Dependencies}
    (h : DependencyReading c site schema dependencies)
    (hwell : (Json.obj schema).isWellFormed = true) :
    dependencies.names.names.Nodup ∧ dependencies.schemas.names.Nodup := by
  obtain ⟨names, schemas, hnames, hmembers, holder⟩ := h
  have hlists := Interpreter.names_of_same (Interpreter.readNameLists_same hnames)
    fun _ _ hsame => hsame.1
  have hchildren := Interpreter.names_of_same hmembers fun _ _ hsame => hsame.1
  refine holder.nodup ?_ ?_
  · exact hlists ▸ membersAt_names_nodup hwell _
  · exact hchildren ▸ membersAt_names_nodup hwell _

/-! ## The part of an evaluation -/

namespace SchemaNode

def dependencyViolations (node : SchemaNode) (schema : CompiledSchema) (apply : Apply) (path : Path)
    (object : Members Json) : Evaluated Violations := do
  let missing := node.object.dependentRequired.flatMap fun (trigger, names) =>
    missingDependencies object trigger names
  let dependent ← collect
    (fun (trigger, child) => node.dependentViolations schema apply path object trigger child)
    node.object.dependentSchemas
  return missing.map (fun failure => node.violation path failure.keyword failure.message) ++ dependent

variable {node : SchemaNode} {schema : CompiledSchema} {apply : Apply} {path : Path}
  {object : Members Json} {violations : Violations}

theorem dependencyViolations_sublist {options : EvaluationOptions} (hboolean : node.boolean = none)
    (h : node.violations schema options apply (.obj object) path = .ok violations) :
    ∃ found, node.dependencyViolations schema apply path object = .ok found ∧
      found.Sublist violations := by
  simp only [SchemaNode.violations, hboolean, Except.bind_eq_ok, Except.pure_eq_ok] at h
  obtain ⟨referred, -, own, hown, inner, hinner, composed, -, rfl⟩ := h
  simp only [ownViolations, formatFailures, Except.mapError_ok, Except.bind_eq_ok,
    Except.pure_eq_ok, Except.ok.injEq] at hown
  obtain ⟨_, rfl, rfl⟩ := hown
  simp only [innerViolations, objectViolations, Except.bind_eq_ok, Except.pure_eq_ok] at hinner
  obtain ⟨inside, -, names, -, dependent, hdependent, rfl⟩ := hinner
  refine ⟨_, by rw [dependencyViolations, hdependent]; rfl, ?_⟩
  have hmissing : (node.object.dependentRequired.flatMap fun (trigger, names) =>
      missingDependencies object trigger names).Sublist (node.failures (.obj object) ++ []) := by
    rw [List.append_nil, failures, ObjectKeywords.check]
    exact (List.sublist_append_right _ _).trans (List.sublist_append_right _ _)
  have hinside : dependent.Sublist (inside ++ names ++ dependent) := List.sublist_append_right _ _
  refine List.Sublist.trans ?_ (List.sublist_append_left _ _)
  exact ((hmissing.map _).trans (List.sublist_append_right _ _)).append hinside

theorem dependencyViolations_eq_nil {sat : NodeId → Json → Prop} (hd : Decides apply sat)
    (hf : RefusesFalse schema sat)
    (h : node.dependencyViolations schema apply path object = .ok violations) :
    violations = [] ↔
      (∀ trigger names, (trigger, names) ∈ node.object.dependentRequired →
        object.has trigger = true → ∀ name ∈ names, object.has name = true) ∧
      ∀ trigger child, (trigger, child) ∈ node.object.dependentSchemas →
        object.has trigger = true → sat child (.obj object) := by
  simp only [dependencyViolations, Except.bind_eq_ok, Except.pure_eq_ok] at h
  obtain ⟨dependent, hdependent, rfl⟩ := h
  have hschemas := collect_eq_nil
    (fun a _ found hfound => dependentViolations_eq_nil hd hf hfound) hdependent
  simp only [List.append_eq_nil_iff, List.map_eq_nil_iff, List.flatMap_eq_nil_iff, hschemas,
    Prod.forall, missingDependencies_eq_nil]

end SchemaNode

/-! ## Outcomes -/

def CompiledSchema.HoldsAt (schema : CompiledSchema) (assertFormats : Bool) (location : String)
    (value : Json) : Prop :=
  ∃ child, schema.locations.idxOf? location = some child ∧
    schema.Satisfies assertFormats child value

/-- An object has all that a schema object at a location asks for the properties of the object. -/
def CompiledSchema.DependenciesHold (schema : CompiledSchema) (assertFormats : Bool)
    (location : String) (members : Members Json) (counts : String → DependencyForm → Prop)
    (object : Members Json) : Prop :=
  ∀ trigger, object.has trigger = true → DependenciesMet members (counts trigger)
    (fun keyword => schema.HoldsAt assertFormats (Pointer.join location [keyword, trigger])
      (.obj object)) object trigger

/-- No entry of the older keyword has the form of a newer keyword that names the trigger too. -/
structure Members.NamesFormsOnce (schema : Members Json) (trigger : String) : Prop where
  names : schema.olderForm? trigger = some .names → schema.entry? "dependentRequired" trigger = none
  schemas : schema.olderForm? trigger = some .schema →
    schema.entry? "dependentSchemas" trigger = none

theorem Members.NamesFormsOnce.met_iff {schema object : Members Json} {trigger : String}
    (h : schema.NamesFormsOnce trigger) (holds : String → Prop) :
    DependenciesMet schema (fun form => schema.olderForm? trigger ≠ some form) holds object trigger ↔
      DependenciesMet schema (fun _ => True) holds object trigger := by
  constructor
  · rintro ⟨hrequired, hschemas, holderRequired, holderSchemas⟩
    refine ⟨fun _ names hentry => ?_, fun _ hsome => ?_, holderRequired, holderSchemas⟩
    · refine hrequired (fun hform => ?_) names hentry
      rw [h.names hform] at hentry
      cases hentry
    · refine hschemas (fun hform => ?_) hsome
      rw [h.schemas hform] at hsome
      cases hsome
  · rintro ⟨hrequired, hschemas, holderRequired, holderSchemas⟩
    exact ⟨fun _ => hrequired trivial, fun _ => hschemas trivial, holderRequired, holderSchemas⟩

theorem Members.forall_entries_iff {α : Type} {table : Members α} (hnodup : table.names.Nodup)
    (p : String → α → Prop) :
    (∀ name value, (name, value) ∈ table → p name value) ↔
      ∀ name, ∀ value ∈ table.get? name, p name value := by
  constructor
  · intro h name value hget
    exact h name value (Members.mem_of_get? hget)
  · intro h name value hmem
    exact h name value (Members.get?_of_mem hnodup hmem)

namespace Compilation

variable {options : CompileOptions} {root : Json} {id : NodeId} {node : SchemaNode}

theorem Finished.built_of_origin {found : SchemaNode} {value : Json} (h : Finished options root c)
    (hsources : ∀ key content, options.source? root key = some content →
      content.isWellFormed = true)
    (hfound : c.freeze.node? id = some found) (horigin : options.Origin root found value) :
    ∃ site node, c.Built id site value node ∧
      found = { node with refTarget := c.targets.lookup id } ∧ value.isWellFormed = true := by
  obtain ⟨site, value', node, hbuilt, rfl⟩ := h.built_of_node? hfound
  obtain ⟨content, tokens, hcontent, hlocation, hat⟩ := horigin
  obtain ⟨content', tokens', hcontent', hlocation', hat'⟩ := hbuilt.origin h.sound.loaded
  obtain rfl : content = content' := Option.some.inj (hcontent.symm.trans hcontent')
  have hwell := hsources _ _ hcontent
  have hmark : '#' ∉ node.documentKey.toList :=
    hbuilt.documentKey h.sound.loaded ▸ hbuilt.hash h.sound.loaded
  have hpointer := (locationOf_inj hmark hmark (hlocation.symm.trans hlocation')).2
  obtain rfl := Pointer.ofTokens_injective hpointer
  obtain rfl := hat.unique hwell hat'
  exact ⟨site, node, hbuilt, rfl, hat.isWellFormed hwell⟩

theorem Finished.holdsAt_iff (h : Finished options root c) (assertFormats : Bool) {keyword : String}
    {tokens : List String} {value : Json} (hnode : ChildNode c site keyword tokens value id)
    (object : Json) :
    c.freeze.HoldsAt assertFormats (Pointer.join site.location (keyword :: tokens)) object ↔
      c.freeze.Satisfies assertFormats id object := by
  have hlocation : Pointer.join site.location (keyword :: tokens) =
      locationOf site.key (Pointer.join site.pointer (keyword :: tokens)) := by
    rw [← String.toList_inj, Pointer.toList_join]
    simp [Site.location, locationOf, Pointer.toList_join]
  have hindex : c.freeze.locations.idxOf? (Pointer.join site.location (keyword :: tokens)) =
      some id := by
    rw [hlocation]
    exact (idxOf?_eq_some_iff_of_nodup h.sound.aligned.nodup).mpr hnode.located
  simp [CompiledSchema.HoldsAt, hindex]

/-- The tables of a node ask what its schema object asks. -/
theorem Finished.tables_iff (h : Finished options root c) {members : Members Json}
    (hbuilt : c.Built id site (.obj members) node) (hwell : (Json.obj members).isWellFormed = true)
    (assertFormats : Bool) (object : Members Json) :
    ((∀ trigger names, (trigger, names) ∈ node.object.dependentRequired →
        object.has trigger = true → ∀ name ∈ names, object.has name = true) ∧
      ∀ trigger child, (trigger, child) ∈ node.object.dependentSchemas →
        object.has trigger = true → c.freeze.Satisfies assertFormats child (.obj object)) ↔
      c.freeze.DependenciesHold assertFormats node.location members
        (fun trigger form => members.olderForm? trigger ≠ some form) object := by
  have hreading : SchemaReading c site members node := hbuilt.reading c (Extends.refl c)
  have hdependencies := hreading.object.dependencies
  obtain ⟨hnames, hschemas⟩ := hdependencies.nodup hwell
  rw [Members.forall_entries_iff hnames fun trigger names => object.has trigger = true →
      ∀ name ∈ names, object.has name = true,
    Members.forall_entries_iff hschemas fun trigger child => object.has trigger = true →
      c.freeze.Satisfies assertFormats child (.obj object),
    CompiledSchema.DependenciesHold, hreading.location]
  have hmet := fun trigger => hdependencies.met_iff hwell trigger
    (fun keyword value child hchild => (h.holdsAt_iff assertFormats hchild (.obj object)).symm) object
  constructor
  · rintro ⟨hlists, hchildren⟩ trigger hhas
    exact (hmet trigger).mp ⟨fun names hmem => hlists trigger names hmem hhas,
      fun child hmem => hchildren trigger child hmem hhas⟩
  · intro hall
    exact ⟨fun trigger names hmem hhas => ((hmet trigger).mpr (hall trigger hhas)).1 names hmem,
      fun trigger child hmem hhas => ((hmet trigger).mpr (hall trigger hhas)).2 child hmem⟩

end Compilation

/--
An object gets no violation for dependencies exactly when it has all that the keywords ask, where
an entry of the older keyword replaces that of the newer keyword of the same form. Where none is
replaced, the keywords are independent of each other.
-/
theorem dependencies_enforced {options : CompileOptions} {document : Json} {schema : CompiledSchema}
    (hcompile : (runCompile options document).result = .ok schema)
    (hsources : ∀ key content, options.source? document key = some content →
      content.isWellFormed = true)
    {id : NodeId} {node : SchemaNode} {members : Members Json} (hnode : schema.node? id = some node)
    (horigin : options.Origin document node (.obj members)) {evaluation : EvaluationOptions}
    {budget : Nat} {object : Members Json} {path : Path} {violations : Violations}
    (hevaluate : schema.evaluate evaluation (budget + 1) id (.obj object) path = .ok violations) :
    ∃ found, node.dependencyViolations schema (schema.evaluate evaluation budget) path object =
        .ok found ∧ found.Sublist violations ∧
      (found = [] ↔ schema.DependenciesHold evaluation.assertFormats node.location members
        (fun trigger form => members.olderForm? trigger ≠ some form) object) ∧
      ((∀ trigger, object.has trigger = true → members.NamesFormsOnce trigger) →
        (found = [] ↔ schema.DependenciesHold evaluation.assertFormats node.location members
          (fun _ _ => True) object)) := by
  obtain ⟨c, hc, rfl⟩ := finished_of_result hcompile
  obtain ⟨site, built, hbuilt, rfl, hwell⟩ := hc.built_of_origin hsources hnode horigin
  have hreading : SchemaReading c site members built :=
    hbuilt.reading c (Compilation.Extends.refl c)
  have hboolean : ({ built with refTarget := c.targets.lookup id } : SchemaNode).boolean = none :=
    hreading.boolean
  simp only [CompiledSchema.evaluate, hnode] at hevaluate
  obtain ⟨found, hfound, hsublist⟩ := SchemaNode.dependencyViolations_sublist hboolean hevaluate
  have hnil := SchemaNode.dependencyViolations_eq_nil
    (CompiledSchema.evaluate_decides_satisfies budget) (CompiledSchema.satisfies_refusesFalse _)
    hfound
  replace hnil := hnil.trans (hc.tables_iff hbuilt hwell evaluation.assertFormats object)
  refine ⟨found, hfound, hsublist, hnil, fun honce => hnil.trans ?_⟩
  exact forall₂_congr fun trigger hhas => (honce trigger hhas).met_iff _

def listedTwice : Members Json :=
  [("dependentRequired", .obj [("a", .arr [.str "b"])]), ("dependencies", .obj [("a", .arr [.str "c"])])]

/-- The older list is asked for, the newer one is not. -/
theorem listedTwice_replaced : ∃ schema,
    (runCompile ⟨10, false, []⟩ (.obj listedTwice)).result = .ok schema ∧
      schema.validate ⟨10, false⟩ (.obj [("a", .int 1), ("c", .int 1)]) = .ok [] ∧
      schema.DependenciesHold false "#" listedTwice
        (fun trigger form => listedTwice.olderForm? trigger ≠ some form)
        [("a", .int 1), ("c", .int 1)] ∧
      ¬ schema.DependenciesHold false "#" listedTwice (fun _ _ => True)
        [("a", .int 1), ("c", .int 1)] := by
  have hrun : (runCompile ⟨10, false, []⟩ (.obj listedTwice)).result.toOption.bind (fun schema =>
      (schema.node? 0).bind fun node =>
        (schema.validate ⟨10, false⟩ (.obj [("a", .int 1), ("c", .int 1)])).toOption.map fun found =>
          (node.location, found.isEmpty)) = some ("#", true) := by decide +kernel
  simp only [Option.bind_eq_some_iff, Option.map_eq_some_iff, Prod.mk.injEq,
    Except.toOption_eq_some] at hrun
  obtain ⟨schema, hschema, node, hnode, violations, hvalidate, hlocation, hempty⟩ := hrun
  obtain rfl := List.isEmpty_iff.mp hempty
  have hkey : node.documentKey = "" := by
    rw [SchemaNode.documentKey, hlocation]
    decide +kernel
  have horigin : CompileOptions.Origin ⟨10, false, []⟩ (.obj listedTwice) node (.obj listedTwice) := by
    refine ⟨_, [], by rw [hkey]; rfl, ?_, .root⟩
    rw [hkey, hlocation]
    decide +kernel
  have hsources : ∀ key content,
      CompileOptions.source? ⟨10, false, []⟩ (.obj listedTwice) key = some content →
        content.isWellFormed = true := by
    intro key content hcontent
    unfold CompileOptions.source? at hcontent
    split at hcontent
    · rw [← Option.some.inj hcontent]
      decide +kernel
    · cases hcontent
  obtain ⟨found, -, hsublist, hiff, -⟩ :=
    dependencies_enforced hschema hsources hnode horigin hvalidate
  obtain rfl := List.sublist_nil.mp hsublist
  refine ⟨schema, hschema, hvalidate, hlocation ▸ hiff.mp rfl, fun hall => ?_⟩
  have hmissing := (hall "a" (by decide)).required trivial [.str "b"] rfl "b"
    (by simp)
  exact absurd hmissing (by decide)

end JsonSchema

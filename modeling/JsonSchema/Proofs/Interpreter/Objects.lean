import JsonSchema.Proofs.Interpreter.Children

/-!
# Keywords for objects

What a property asks for is read from three keywords. The oldest of them may hold lists of names
and schemas side by side, and it names no property that another one names.
-/

namespace JsonSchema.Interpreter

open CompileM

variable {c : Compilation} {site : Site} {schema object : Members Json}
  {sat : NodeId → Json → Prop} {apply : Json → Json → Bool} {value : Json} {name : String}

/-! ## Lists of names -/

theorem hasAll_iff {items : List Json} {names : List String}
    (h : items.mapM Json.string? = some names) :
    hasAll object items = true ↔ ∀ name ∈ names, object.has name = true := by
  induction items generalizing names with
  | nil =>
    cases h
    simp [hasAll]
  | cons item rest ih =>
    simp only [List.mapM_cons, Option.bind_eq_bind, Option.bind_eq_some_iff, Option.pure_def,
      Option.some.injEq] at h
    obtain ⟨first, hfirst, others, hothers, rfl⟩ := h
    obtain ⟨s, rfl⟩ : ∃ s, item = .str s := by
      cases item <;> simp_all [Json.string?]
    cases hfirst
    have hrest := ih hothers
    simp only [hasAll, List.all_cons, Bool.and_eq_true, onText, List.forall_mem_cons] at hrest ⊢
    rw [hrest]

theorem items_of_stringList {keyword : String} {names : List String}
    (h : stringList keyword value = .ok names) :
    ∃ items, value = .arr items ∧ items.mapM Json.string? = some names := by
  unfold stringList at h
  split at h
  case h_1 items =>
    split at h <;> cases h
    exact ⟨items, rfl, by assumption⟩
  case h_2 => cases h

theorem required_iff {read : Option (List String)}
    (h : (schema.get? "required").mapM (stringList "required") = .ok read) :
    hasAll object (schema.itemsAt "required") = true ↔
      ∀ name ∈ read.getD [], object.has name = true := by
  unfold Members.itemsAt
  cases hget : schema.get? "required" with
  | none =>
    rw [hget] at h
    cases h
    simp [hasAll]
  | some value =>
    rw [hget, Option.mapM_some] at h
    obtain ⟨names, hnames, rfl⟩ := Except.map_eq_ok.mp h
    obtain ⟨items, rfl, hitems⟩ := items_of_stringList hnames
    exact hasAll_iff hitems

/-! ## Properties -/

theorem get?_rel {children : Members NodeId} {members : Members Json}
    (h : List.Forall₂ (fun child member => child.1 = member.1 ∧ Same sat apply child.2 member.2)
      children members) (name : String) :
    Option.Rel (Same sat apply) (children.get? name) (members.get? name) :=
  Members.rel_get? (fun _ => Same sat apply) h name

structure PatternSame (sat : NodeId → Json → Prop) (apply : Json → Json → Bool)
    (child : PatternProperty) (entry : String × Json) : Prop where
  pattern : Pattern.read entry.1 = .ok child.pattern
  node : Same sat apply child.node entry.2

theorem Agrees.patterns (h : Agrees c site.key sat apply) {entries : Members Json}
    {children : List PatternProperty} (hread : PatternNodes c site entries children) :
    List.Forall₂ (PatternSame sat apply) children entries :=
  List.Forall₂.imp (fun _ _ hnode => ⟨hnode.1, h _ _ _ hnode.2⟩) hread

theorem matchingSchemas_same {children : List PatternProperty} {entries : Members Json}
    (h : List.Forall₂ (PatternSame sat apply) children entries) (name : String) :
    List.Forall₂ (Same sat apply)
      ((children.filter (·.pattern.isIn name)).map (·.node)) (matchingSchemas entries name) := by
  induction h with
  | nil => exact .nil
  | @cons child entry _ _ hfirst _ ih =>
    rw [matchingSchemas, List.filter_cons, List.filter_cons, matchesSource_eq hfirst.pattern]
    split
    · exact .cons hfirst.node ih
    · exact ih

/-- What an object's keywords ask of one property. -/
structure PropertyHolds (keywords : ObjectKeywords) (sat : NodeId → Json → Prop) (name : String)
    (value : Json) : Prop where
  named : ∀ child ∈ keywords.properties.get? name, sat child value
  matching : ∀ entry ∈ keywords.patternProperties, entry.pattern.isIn name = true →
    sat entry.node value
  additional : keywords.IsAdditional name → ∀ child ∈ keywords.additionalProperties, sat child value

theorem propertyAllows_iff (h : Agrees c site.key sat apply) {keywords : ObjectKeywords}
    (hread : ObjectReading c site schema keywords) :
    propertyAllows apply schema name value = true ↔ PropertyHolds keywords sat name value := by
  have hnamed := get?_rel (h.members hread.properties) name
  have hmatching := matchingSchemas_same (h.patterns hread.patternProperties) name
  have hadditional : asks schema "additionalProperties" (fun inner => apply inner value) = true ↔
      ∀ id ∈ keywords.additionalProperties, sat id value :=
    asks_apply (h.child hread.additionalProperties)
  have hempty : ((keywords.patternProperties.filter (·.pattern.isIn name)).map (·.node)) = [] ↔
      ∀ entry ∈ keywords.patternProperties, entry.pattern.isIn name = false := by
    simp [List.filter_eq_nil_iff]
  simp only [propertyAllows, Bool.and_eq_true, Bool.or_eq_true, all_of_rel hnamed,
    all_apply hmatching, isSome_of_rel hnamed, hadditional, Bool.not_eq_true', ← Bool.not_eq_true,
    isEmpty_iff hmatching]
  rw [hempty]
  constructor
  · rintro ⟨⟨hnamed, hmatching⟩, hrest⟩
    refine ⟨hnamed, fun entry hentry hin => ?_, ?_⟩
    · exact hmatching _ (List.mem_map.mpr ⟨entry, List.mem_filter.mpr ⟨hentry, hin⟩, rfl⟩)
    · rintro ⟨hnone, hother⟩
      refine hrest.resolve_left ?_
      rintro (hsome | hsome)
      · simp [hnone] at hsome
      · exact hsome hother
  · rintro ⟨hnamed, hmatching, hrest⟩
    refine ⟨⟨hnamed, fun id hid => ?_⟩, ?_⟩
    · obtain ⟨entry, hentry, rfl⟩ := List.mem_map.mp hid
      obtain ⟨hmem, hin⟩ := List.mem_filter.mp hentry
      exact hmatching entry hmem hin
    · by_cases hadditional : keywords.IsAdditional name
      · exact .inr (hrest hadditional)
      · refine .inl ?_
        by_contra hno
        rw [not_or, not_not, Option.not_isSome_iff_eq_none] at hno
        exact hadditional hno

/-! ## Dependencies -/

structure DependenciesHold (dependencies : Dependencies) (sat : NodeId → Json → Prop)
    (object : Members Json) : Prop where
  names : ∀ trigger names, (trigger, names) ∈ dependencies.names → object.has trigger = true →
    ∀ name ∈ names, object.has name = true
  schemas : ∀ trigger child, (trigger, child) ∈ dependencies.schemas → object.has trigger = true →
    sat child (.obj object)

theorem names_append {α : Type} (table : Members α) (name : String) (value : α) :
    Members.names (table ++ [(name, value)]) = table.names ++ [name] :=
  List.map_append

theorem dependencyAllows_names {keyword trigger : String} {asked : Json} {names : List String}
    (h : stringList keyword asked = .ok names) :
    dependencyAllows apply object (trigger, asked) = true ↔
      (object.has trigger = true → ∀ name ∈ names, object.has name = true) := by
  obtain ⟨items, rfl, hitems⟩ := items_of_stringList h
  rw [dependencyAllows, Bool.or_eq_true, Bool.not_eq_true', hasAll_iff hitems]
  cases object.has trigger <;> simp

theorem dependentSchemaAllows_iff {trigger : String} {id : NodeId} {inner : Json}
    (h : Same sat apply id inner) : dependentSchemaAllows apply object (trigger, inner) = true ↔
      (object.has trigger = true → sat id (.obj object)) := by
  rw [dependentSchemaAllows, h (.obj object)]
  cases object.has trigger <;> simp

theorem dependencyAllows_schema {trigger : String} {id : NodeId} {inner : Json}
    (hinner : ∀ items, inner ≠ .arr items) (h : Same sat apply id inner) :
    dependencyAllows apply object (trigger, inner) = true ↔
      (object.has trigger = true → sat id (.obj object)) := by
  unfold dependencyAllows
  split
  case h_1 items heq => exact absurd heq (hinner items)
  case h_2 => exact dependentSchemaAllows_iff h

def triggers (schema : Members Json) (keyword : String) : List String :=
  (schema.membersAt keyword).names

theorem readNameLists_same {keyword : String} {members : Members Json}
    {lists : Members (List String)} (h : readNameLists keyword members = .ok lists) :
    List.Forall₂ (fun list member => list.1 = member.1 ∧ stringList keyword member.2 = .ok list.2)
      lists members := by
  induction members generalizing lists with
  | nil =>
    cases h
    exact .nil
  | cons first rest ih =>
    obtain ⟨name, value⟩ := first
    simp only [readNameLists, Except.bind_eq_ok, Except.pure_eq_ok] at h
    obtain ⟨names, hnames, others, hothers, rfl⟩ := h
    exact .cons ⟨rfl, hnames⟩ (ih hothers)

theorem names_of_same {α β : Type} {r : String × α → String × β → Prop} {table : Members α}
    {members : Members β} (h : List.Forall₂ r table members)
    (hname : ∀ entry member, r entry member → entry.1 = member.1) :
    table.names = members.names := by
  induction h with
  | nil => rfl
  | cons hfirst _ ih => exact congrArg₂ _ (hname _ _ hfirst) ih

theorem nameLists_all {keyword : String} {lists : Members (List String)} {members : Members Json}
    (h : List.Forall₂ (fun list member =>
      list.1 = member.1 ∧ stringList keyword member.2 = .ok list.2) lists members) :
    members.all (dependencyAllows apply object) = true ↔ ∀ trigger names,
      (trigger, names) ∈ lists → object.has trigger = true →
        ∀ name ∈ names, object.has name = true := by
  rw [← Prod.forall (p := fun list => list ∈ lists → object.has list.1 = true →
    ∀ name ∈ list.2, object.has name = true)]
  induction h with
  | nil => simp
  | @cons list member _ _ hfirst _ ih =>
    rw [List.all_cons, Bool.and_eq_true, ih, dependencyAllows_names hfirst.2, ← hfirst.1,
      List.forall_mem_cons]

theorem dependentSchemas_all {children : Members NodeId} {members : Members Json}
    (h : List.Forall₂ (fun child member => child.1 = member.1 ∧ Same sat apply child.2 member.2)
      children members) :
    members.all (dependentSchemaAllows apply object) = true ↔ ∀ trigger child,
      (trigger, child) ∈ children → object.has trigger = true → sat child (.obj object) := by
  rw [← Prod.forall (p := fun child => child ∈ children → object.has child.1 = true →
    sat child.2 (.obj object))]
  induction h with
  | nil => simp
  | @cons child member _ _ hfirst _ ih =>
    rw [List.all_cons, Bool.and_eq_true, ih, dependentSchemaAllows_iff hfirst.2, ← hfirst.1,
      List.forall_mem_cons]

section

variable {done result : Dependencies} {rest : Members Json}

theorem dependenciesHold_names {names : List String} (hnew : name ∉ done.names.names) :
    DependenciesHold { done with names := done.names.put name names } sat object ↔
      DependenciesHold done sat object ∧
        (object.has name = true → ∀ other ∈ names, object.has other = true) := by
  rw [Members.put_of_notMem names hnew]
  constructor
  · rintro ⟨hnames, hschemas⟩
    exact ⟨⟨fun trigger list hmem => hnames trigger list (List.mem_append_left _ hmem), hschemas⟩,
      hnames name names (List.mem_append_right _ List.mem_cons_self)⟩
  · rintro ⟨⟨hnames, hschemas⟩, hlast⟩
    refine ⟨fun trigger list hmem => ?_, hschemas⟩
    rcases List.mem_append.mp hmem with hmem | hmem
    · exact hnames trigger list hmem
    · cases List.mem_singleton.mp hmem
      exact hlast

theorem dependenciesHold_schemas {id : NodeId} (hnew : name ∉ done.schemas.names) :
    DependenciesHold { done with schemas := done.schemas.put name id } sat object ↔
      DependenciesHold done sat object ∧ (object.has name = true → sat id (.obj object)) := by
  rw [Members.put_of_notMem id hnew]
  constructor
  · rintro ⟨hnames, hschemas⟩
    exact ⟨⟨hnames, fun trigger child hmem =>
      hschemas trigger child (List.mem_append_left _ hmem)⟩,
      hschemas name id (List.mem_append_right _ List.mem_cons_self)⟩
  · rintro ⟨⟨hnames, hschemas⟩, hlast⟩
    refine ⟨hnames, fun trigger child hmem => ?_⟩
    rcases List.mem_append.mp hmem with hmem | hmem
    · exact hschemas trigger child hmem
    · cases List.mem_singleton.mp hmem
      exact hlast

theorem olderDependencies_iff (h : Agrees c site.key sat apply)
    (hread : OlderDependencies c site done rest result) (hnodup : rest.names.Nodup)
    (hnew : ∀ trigger ∈ rest.names, trigger ∉ done.names.names ∧ trigger ∉ done.schemas.names) :
    DependenciesHold result sat object ↔ DependenciesHold done sat object ∧
      rest.all (dependencyAllows apply object) = true := by
  induction hread with
  | none done => simp
  | @names done result rest name names required hnames _ ih =>
    rw [Members.names, List.map_cons, List.nodup_cons] at hnodup
    rw [Members.names, List.map_cons, List.forall_mem_cons] at hnew
    obtain ⟨hname, hrest⟩ := hnew
    rw [ih hnodup.2, dependenciesHold_names hname.1, List.all_cons, Bool.and_eq_true,
      dependencyAllows_names hnames, and_assoc]
    intro trigger hmem
    refine ⟨?_, (hrest trigger hmem).2⟩
    rw [Members.put_of_notMem required hname.1, names_append, List.mem_append, List.mem_singleton, not_or]
    exact ⟨(hrest trigger hmem).1, fun heq => hnodup.1 (heq ▸ hmem)⟩
  | @schema done result rest name inner id hinner hnode _ ih =>
    rw [Members.names, List.map_cons, List.nodup_cons] at hnodup
    rw [Members.names, List.map_cons, List.forall_mem_cons] at hnew
    obtain ⟨hname, hrest⟩ := hnew
    rw [ih hnodup.2, dependenciesHold_schemas hname.2, List.all_cons, Bool.and_eq_true,
      dependencyAllows_schema hinner (h _ _ _ hnode), and_assoc]
    intro trigger hmem
    refine ⟨(hrest trigger hmem).1, ?_⟩
    rw [Members.put_of_notMem id hname.2, names_append, List.mem_append, List.mem_singleton, not_or]
    exact ⟨(hrest trigger hmem).2, fun heq => hnodup.1 (heq ▸ hmem)⟩

end

/-- No member of the older keyword is named by a newer one. -/
def NamesTriggersOnce (schema : Members Json) : Prop :=
  ∀ trigger ∈ triggers schema "dependencies",
    trigger ∉ triggers schema "dependentRequired" ∧ trigger ∉ triggers schema "dependentSchemas"

theorem dependencies_iff (object : Members Json) (h : Agrees c site.key sat apply)
    {dependencies : Dependencies}
    (hread : DependencyReading c site schema dependencies)
    (hnodup : (triggers schema "dependencies").Nodup) (honce : NamesTriggersOnce schema) :
    ((schema.membersAt "dependentRequired").all (dependencyAllows apply object) = true ∧
      (schema.membersAt "dependentSchemas").all (dependentSchemaAllows apply object) = true) ∧
      (schema.membersAt "dependencies").all (dependencyAllows apply object) = true ↔
      DependenciesHold dependencies sat object := by
  obtain ⟨names, schemas, hnames, hmembers, holder⟩ := hread
  replace hnames := readNameLists_same hnames
  replace hmembers := h.members hmembers
  rw [olderDependencies_iff h holder hnodup, nameLists_all hnames, dependentSchemas_all hmembers]
  · exact and_congr_left fun _ => ⟨fun hall => ⟨hall.1, hall.2⟩, fun hall => ⟨hall.1, hall.2⟩⟩
  · intro trigger hmem
    rw [names_of_same hnames fun _ _ hsame => hsame.1, names_of_same hmembers fun _ _ hsame => hsame.1]
    exact honce trigger hmem

/-! ## Whole objects -/

theorem objectAllows_iff (h : Agrees c site.key sat apply) {keywords : ObjectKeywords}
    (hread : ObjectReading c site schema keywords)
    (hnodup : (triggers schema "dependencies").Nodup) (honce : NamesTriggersOnce schema) :
    objectAllows apply schema object = true ↔ keywords.Holds sat object := by
  obtain ⟨names, hnames, hrequired⟩ := hread.required
  have hproperties : object.all (fun property =>
        propertyAllows apply schema property.1 property.2) = true ↔
      ∀ name value, (name, value) ∈ object → PropertyHolds keywords sat name value := by
    simp only [List.all_eq_true, propertyAllows_iff h hread, Prod.forall]
  have hpropertyNames : object.names.all (fun name =>
        asks schema "propertyNames" fun inner => apply inner (.str name)) = true ↔
      ∀ child ∈ keywords.propertyNames, ∀ name ∈ object.names, sat child (.str name) := by
    simp only [List.all_eq_true, asks_apply (h.child hread.propertyNames)]
    exact ⟨fun hall child hchild name hname => hall name hname child hchild,
      fun hall name hname child hchild => hall child hchild name hname⟩
  have hdependencies := dependencies_iff object h hread.dependencies hnodup honce
  simp only [objectAllows, Bool.and_eq_true, required_iff hnames, ← hrequired,
    asksCount_iff hread.minProperties, asksCount_iff hread.maxProperties, hproperties,
    hpropertyNames, decide_eq_true_eq]
  constructor
  · rintro ⟨⟨⟨⟨⟨⟨⟨hrequired, hmin⟩, hmax⟩, hproperty⟩, hname⟩, hlists⟩, hschemas⟩, holder⟩
    have hholds := hdependencies.mp ⟨⟨hlists, hschemas⟩, holder⟩
    exact ⟨hrequired, hmin, hmax, hholds.names, fun name value hmem => (hproperty name value hmem).named,
      fun name value hmem => (hproperty name value hmem).matching,
      fun name value hmem => (hproperty name value hmem).additional, hname, hholds.schemas⟩
  · rintro ⟨hrequired, hmin, hmax, hlists, hnamed, hmatching, hadditional, hname, hschemas⟩
    obtain ⟨⟨hlists, hschemas⟩, holder⟩ := hdependencies.mpr ⟨hlists, hschemas⟩
    refine ⟨⟨⟨⟨⟨⟨⟨hrequired, hmin⟩, hmax⟩, ?_⟩, hname⟩, hlists⟩, hschemas⟩, holder⟩
    exact fun name value hmem => ⟨hnamed name value hmem, hmatching name value hmem,
      hadditional name value hmem⟩

end JsonSchema.Interpreter

import JsonSchema.Proofs.Schema.Subschema

/-!
# Schema objects that compile

A step completes when it comes to an end without a fault from every good state, and leaves a good
state. Reading a schema object completes when all keywords in it have values that they may have and
the visits of its subschemas complete.
-/

namespace JsonSchema

open CompileM

/-! ## Legible schema objects -/

/-- Every keyword of a schema object has a value that it may have, the subschemas apart. -/
structure Legible (site : Site) (schema : Members Json) : Prop where
  ref : ∃ ref, readRef schema = .ok ref
  anchors : ∃ names, readAnchors schema = .ok names
  value : ∃ keywords, readValueKeywords schema = .ok keywords
  number : ∃ keywords, readNumberKeywords site.declaration schema = .ok keywords
  string : ∃ keywords, readStringKeywords site.location schema = .ok keywords
  counts : ∀ keyword ∈ ["minItems", "maxItems", "minContains", "maxContains", "minProperties",
    "maxProperties"], ∃ count, schema.count? keyword = .ok count
  uniqueItems : ∃ unique, schema.bool "uniqueItems" = .ok unique
  lists : ∀ keyword ∈ ["allOf", "anyOf", "oneOf"], schema.HasList keyword
  latestItems : (∀ items, schema.get? "items" ≠ some (.arr items)) →
    allowsLatestItems site.declaration = true → schema.HasList "prefixItems"
  olderItems : ∀ items, schema.get? "items" = some (.arr items) →
    allowsOlderItems site.declaration = true ∧ schema.has "prefixItems" = false
  tables : ∀ keyword ∈ ["properties", "patternProperties", "dependentRequired", "dependentSchemas",
    "dependencies", "$defs", "definitions"], schema.HasTable keyword
  patterns : ∀ source value, (source, value) ∈ schema.membersAt "patternProperties" →
    ∃ pattern, Pattern.read source = .ok pattern
  required : ∃ names, (schema.get? "required").mapM (stringList "required") = .ok names
  dependentRequired : ∃ lists,
    readNameLists "dependentRequired" (schema.membersAt "dependentRequired") = .ok lists
  dependencies : ∀ name items, (name, .arr items) ∈ schema.membersAt "dependencies" →
    ∃ names, stringList "dependencies" (.arr items) = .ok names

section

variable {c : Compilation} {site : Site} {schema : Members Json}

theorem OlderDependencies.legible {done result : Dependencies} {older : Members Json} {name : String}
    {items : List Json} (h : OlderDependencies c site done older result)
    (hmem : (name, .arr items) ∈ older) :
    ∃ names, stringList "dependencies" (.arr items) = .ok names := by
  induction h with
  | none => simp at hmem
  | names hnames _ ih =>
    rcases List.mem_cons.mp hmem with heq | hrest
    · obtain ⟨-, hitems⟩ := Prod.mk.inj heq
      exact ⟨_, hitems ▸ hnames⟩
    · exact ih hrest
  | schema hvalue _ _ ih =>
    rcases List.mem_cons.mp hmem with heq | hrest
    · exact absurd (Prod.mk.inj heq).2.symm (hvalue items)
    · exact ih hrest

theorem SchemaReading.legible {node : SchemaNode} (h : SchemaReading c site schema node) :
    Legible site schema := by
  have hitems := h.array.items
  unfold ItemSchemaNodes at hitems
  obtain ⟨names, schemas, hnames, -, holder⟩ := h.object.dependencies
  obtain ⟨required, hrequired, -⟩ := h.object.required
  constructor
  case ref => exact ⟨_, h.ref⟩
  case anchors => exact h.anchors
  case value => exact ⟨_, h.value⟩
  case number => exact ⟨_, h.number⟩
  case string => exact ⟨_, h.string⟩
  case counts =>
    simp only [List.forall_mem_cons]
    exact ⟨⟨_, h.array.minItems⟩, ⟨_, h.array.maxItems⟩, ⟨_, h.array.minContains⟩,
      ⟨_, h.array.maxContains⟩, ⟨_, h.object.minProperties⟩, ⟨_, h.object.maxProperties⟩, by simp⟩
  case uniqueItems => exact ⟨_, h.array.uniqueItems⟩
  case lists => exact h.composition.lists
  case latestItems =>
    intro hlatest
    split at hitems
    case h_1 items hget => exact absurd hget (hlatest items)
    case h_2 => exact hitems.list
  case olderItems =>
    intro items hget
    rw [hget] at hitems
    exact ⟨hitems.allowed, hitems.alone⟩
  case tables =>
    have hobject := h.object.tables
    simp only [List.forall_mem_cons] at hobject ⊢
    obtain ⟨hproperties, hpatterns, hlisted, hdependent, holder, -⟩ := hobject
    exact ⟨hproperties, hpatterns, hlisted, hdependent, holder, h.defs.table, h.definitions.table,
      by simp⟩
  case patterns =>
    intro source value hmem
    obtain ⟨child, -, hpattern, -⟩ := exists_of_forall₂ h.object.patternProperties.flip hmem
    exact ⟨_, hpattern⟩
  case required => exact ⟨_, hrequired⟩
  case dependentRequired => exact ⟨_, hnames⟩
  case dependencies => exact fun name items hmem => holder.legible hmem

end

/-! ## Steps that complete -/

namespace CompileM

variable {α β ε : Type} {good : Compilation → Prop} {post : α → Prop}

/-- From every good state the step comes to an end without a fault, and leaves a good state. -/
def Completes (good : Compilation → Prop) (step : CompileM α) (post : α → Prop) : Prop :=
  ∀ c, good c → ∃ a c', Runs step c (.ok a) c' ∧ good c' ∧ post a

def Quiet (good : Compilation → Prop) : Prop :=
  ∀ c warnings log, good c → good { c with warnings, log }

namespace Completes

theorem mono {step : CompileM α} {post' : α → Prop} (h : Completes good step post)
    (himp : ∀ a, post a → post' a) : Completes good step post' := by
  intro c hc
  obtain ⟨a, c', hrun, hc', hpost⟩ := h c hc
  exact ⟨a, c', hrun, hc', himp a hpost⟩

theorem pure (a : α) : Completes good (pure a) fun _ => True :=
  fun c hc => ⟨a, c, runs_pure.mpr ⟨rfl, rfl⟩, hc, trivial⟩

theorem bind {x : CompileM α} {f : α → CompileM β} {next : β → Prop} (hx : Completes good x post)
    (hf : ∀ a, post a → Completes good (f a) next) : Completes good (x >>= f) next := by
  intro c hc
  obtain ⟨a, c₁, hrun, hc₁, hpost⟩ := hx c hc
  obtain ⟨b, c₂, hrun', hc₂, hnext⟩ := hf a hpost c₁ hc₁
  exact ⟨b, c₂, runs_bind_ok.mpr ⟨a, c₁, hrun, hrun'⟩, hc₂, hnext⟩

theorem lift {fault : ε → CompileFault} {outcome : Except ε α} {a : α} (h : outcome = .ok a) :
    Completes good (lift fault outcome) fun b => b = a :=
  fun c hc => ⟨a, c, runs_lift_ok.mpr ⟨h, rfl⟩, hc, rfl⟩

theorem reading {outcome : Except KeywordFault α} (site : Site) (h : ∃ a, outcome = .ok a) :
    Completes good (reading site outcome) fun a => outcome = .ok a := by
  obtain ⟨a, ha⟩ := h
  exact (lift ha).mono fun b hb => hb ▸ ha

theorem record (hquiet : Quiet good) (level : Int) (message : String) :
    Completes good (record level message) fun _ => True :=
  fun c hc => ⟨⟨⟩, _, runs_modify.mpr ⟨rfl, rfl⟩, hquiet c c.warnings _ hc, trivial⟩

theorem warn (hquiet : Quiet good) (message : String) :
    Completes good (warn message) fun _ => True := by
  intro c hc
  refine ⟨⟨⟩, _, runs_modify_bind.mpr (runs_modify.mpr ⟨rfl, rfl⟩), hquiet c _ _ hc, trivial⟩

/-! ## Keywords -/

section

variable {compile : CompileChild} {site : Site} {schema : Members Json} {keyword : String}

theorem childOf (h : ∀ value, schema.get? keyword = some value →
      Completes good (compile site { value, keyword }) fun _ => True) :
    Completes good (childOf compile site schema keyword) fun _ => True := by
  unfold CompileM.childOf
  cases hget : schema.get? keyword with
  | none => exact pure none
  | some value => exact (h value hget).bind fun id _ => pure (some id)

theorem compileItems (index : Nat) (items : List Json)
    (h : ∀ entry ∈ items.zipIdx index, Completes good
      (compile site { value := entry.1, keyword, tokens := [natText entry.2] }) fun _ => True) :
    Completes good (compileItems compile site keyword index items) fun _ => True := by
  induction items generalizing index with
  | nil => exact pure []
  | cons value rest ih =>
    rw [List.zipIdx_cons, List.forall_mem_cons] at h
    exact h.1.bind fun id _ => (ih (index + 1) h.2).bind fun ids _ => pure (id :: ids)

theorem compileArrayItems {items : List Json}
    (h : ∀ i value, items[i]? = some value → Completes good
      (compile site { value, keyword, tokens := [natText i] }) fun _ => True) :
    Completes good (CompileM.compileItems compile site keyword 0 items) fun _ => True :=
  compileItems 0 items fun _ hentry => h _ _ (List.mk_mem_zipIdx_iff_getElem?.mp hentry)

theorem childList (hlist : schema.HasList keyword)
    (h : ∀ items i value, schema.get? keyword = some (.arr items) → items[i]? = some value →
      Completes good (compile site { value, keyword, tokens := [natText i] }) fun _ => True) :
    Completes good (childList compile site schema keyword) fun _ => True := by
  unfold CompileM.childList
  split
  case h_1 => exact pure []
  case h_2 item items hget => exact compileArrayItems fun i value hitem => h _ i value hget hitem
  case h_3 value hother hget =>
    obtain ⟨item, items, rfl⟩ := hlist value hget
    exact absurd rfl (hother item items)

theorem compileMembers (members : Members Json)
    (h : ∀ name value, (name, value) ∈ members → Completes good
      (compile site { value, keyword, tokens := [name] }) fun _ => True) :
    Completes good (compileMembers compile site keyword members) fun _ => True := by
  induction members with
  | nil => exact pure []
  | cons member rest ih =>
    obtain ⟨name, value⟩ := member
    have hrest := ih fun other value hmem => h other value (List.mem_cons_of_mem _ hmem)
    exact (h name value List.mem_cons_self).bind fun id _ => hrest.bind fun ids _ =>
      pure ((name, id) :: ids)

theorem object (htable : schema.HasTable keyword) :
    Completes good (CompileM.reading site (schema.object keyword)) fun members =>
      members = schema.membersAt keyword := by
  refine (reading site ?_).mono fun members h => Members.object_eq_ok h
  unfold Members.object
  split
  case h_1 => exact ⟨_, rfl⟩
  case h_2 => exact ⟨_, rfl⟩
  case h_3 value hother hget =>
    obtain ⟨members, rfl⟩ := htable value hget
    exact absurd rfl (hother members)

theorem mem_membersAt {name : String} {value : Json} (h : (name, value) ∈ schema.membersAt keyword) :
    ∃ members, schema.get? keyword = some (.obj members) ∧ (name, value) ∈ members := by
  unfold Members.membersAt at h
  split at h
  case h_1 members hget => exact ⟨members, hget, h⟩
  case h_2 => simp at h

theorem childMembers (htable : schema.HasTable keyword)
    (h : ∀ members name value, schema.get? keyword = some (.obj members) → (name, value) ∈ members →
      Completes good (compile site { value, keyword, tokens := [name] }) fun _ => True) :
    Completes good (childMembers compile site schema keyword) fun _ => True := by
  refine (object htable).bind fun members hmembers => compileMembers members fun name value hmem => ?_
  obtain ⟨found, hget, hmem⟩ := mem_membersAt (hmembers ▸ hmem)
  exact h found name value hget hmem

theorem compilePatternMembers (members : Members Json)
    (hpattern : ∀ source value, (source, value) ∈ members →
      ∃ pattern, Pattern.read source = .ok pattern)
    (h : ∀ source value, (source, value) ∈ members → Completes good
      (compile site { value, keyword := "patternProperties", tokens := [source] }) fun _ => True) :
    Completes good (compilePatternMembers compile site members) fun _ => True := by
  induction members with
  | nil => exact pure []
  | cons member rest ih =>
    obtain ⟨source, value⟩ := member
    obtain ⟨pattern, hread⟩ := hpattern source value List.mem_cons_self
    have hlift : readPattern site.location "patternProperties" (.str source) = .ok pattern := by
      simp [readPattern, hread]
    have hrest := ih (fun other value hmem => hpattern other value (List.mem_cons_of_mem _ hmem))
      fun other value hmem => h other value (List.mem_cons_of_mem _ hmem)
    exact (lift hlift).bind fun pattern _ => (h source value List.mem_cons_self).bind fun node _ =>
      hrest.bind fun children _ => pure (⟨pattern, node⟩ :: children)

theorem compileOlderDependencies (done : Dependencies) (members : Members Json)
    (hlist : ∀ name items, (name, .arr items) ∈ members →
      ∃ names, stringList "dependencies" (.arr items) = .ok names)
    (h : ∀ name value, (name, value) ∈ members → (∀ items, value ≠ .arr items) → Completes good
      (compile site { value, keyword := "dependencies", tokens := [name] }) fun _ => True) :
    Completes good (compileOlderDependencies compile site done members) fun _ => True := by
  induction members generalizing done with
  | nil => exact pure done
  | cons member rest ih =>
    obtain ⟨name, value⟩ := member
    have hrest := fun done => ih done
      (fun other items hmem => hlist other items (List.mem_cons_of_mem _ hmem))
      fun other value hmem => h other value (List.mem_cons_of_mem _ hmem)
    unfold CompileM.compileOlderDependencies
    split
    case h_1 => simp_all
    case h_2 hmember =>
      cases hmember
      exact (reading site (hlist _ _ List.mem_cons_self)).bind fun _ _ => hrest _
    case h_3 hvalue hmember =>
      cases hmember
      exact (h _ _ List.mem_cons_self hvalue).bind fun _ _ => hrest _

end

/-! ## Whole schema objects -/

section

variable {compile : CompileChild} {site : Site} {schema : Members Json}

def Subvisits (good : Compilation → Prop) (compile : CompileChild) (site : Site)
    (schema : Members Json) : Prop :=
  ∀ keyword tokens value, Subschema site.declaration schema keyword tokens value →
    Completes good (compile site { value, keyword, tokens }) fun _ => True

variable (hlegible : Legible site schema) (hvisits : Subvisits good compile site schema)

include hlegible hvisits

theorem compileItemSchemas :
    Completes good (compileItemSchemas compile site schema) fun _ => True := by
  unfold CompileM.compileItemSchemas
  split
  case h_1 items hget =>
    obtain ⟨hallowed, halone⟩ := hlegible.olderItems items hget
    have hfirst : Completes good (CompileM.compileItems compile site "items" 0 items) fun _ => True :=
      compileArrayItems fun i value hitem => hvisits _ _ _ (.olderItem hget hitem)
    have hrest : ∀ value, schema.get? "additionalItems" = some value →
        Completes good (compile site { value, keyword := "additionalItems" }) fun _ => True :=
      fun value hvalue => hvisits _ _ _ (.additionalItems hget hvalue)
    unfold CompileM.compileOlderItems
    simp only [hallowed, halone, Bool.not_true, Bool.false_eq_true, if_false]
    refine hfirst.bind fun first _ => ?_
    split
    case h_1 => exact pure _
    case h_2 value hmore => exact (hrest value hmore).bind fun rest _ => pure _
  case h_2 hlatest =>
    have hrest : Completes good (CompileM.childOf compile site schema "items") fun _ => True := by
      refine childOf fun value hget => hvisits _ _ _ (.items hget ?_)
      rintro items rfl
      exact hlatest items hget
    unfold CompileM.compileLatestItems
    split
    case isTrue hallowed =>
      have hfirst : Completes good (CompileM.childList compile site schema "prefixItems")
          fun _ => True :=
        childList (hlegible.latestItems hlatest hallowed) fun items i value hget hitem =>
          hvisits _ _ _ (.prefixItem hlatest hallowed hget hitem)
      exact hfirst.bind fun first _ => hrest.bind fun rest _ => pure _
    case isFalse => exact (pure []).bind fun first _ => hrest.bind fun rest _ => pure _

theorem compileArray : Completes good (compileArray compile site schema) fun _ => True := by
  have hcount : ∀ keyword ∈ ["minItems", "maxItems", "minContains", "maxContains"],
      ∃ count, schema.count? keyword = .ok count := by
    intro keyword hkeyword
    exact hlegible.counts keyword (by simp at hkeyword ⊢; tauto)
  have hcontains : Completes good (CompileM.childOf compile site schema "contains") fun _ => True :=
    childOf fun value hget => hvisits _ _ _ (.single (by simp) hget)
  unfold CompileM.compileArray
  exact (reading site (hcount _ (by simp))).bind fun _ _ => (reading site (hcount _ (by simp))).bind
    fun _ _ => (reading site hlegible.uniqueItems).bind fun _ _ =>
    (compileItemSchemas hlegible hvisits).bind fun _ _ => hcontains.bind fun _ _ =>
    (reading site (hcount _ (by simp))).bind fun _ _ => (reading site (hcount _ (by simp))).bind
    fun _ _ => pure _

omit hlegible in
theorem single (keyword : String) (hkeyword : keyword ∈ ["contains", "additionalProperties",
      "propertyNames", "not", "if", "then", "else"]) :
    Completes good (CompileM.childOf compile site schema keyword) fun _ => True :=
  childOf fun _ hget => hvisits _ _ _ (.single hkeyword hget)

theorem table (keyword : String) (hkeyword : keyword ∈ ["properties", "patternProperties",
      "dependentSchemas", "$defs", "definitions"]) :
    Completes good (CompileM.childMembers compile site schema keyword) fun _ => True := by
  refine childMembers (hlegible.tables keyword ?_) fun members name value hget hmem =>
    hvisits _ _ _ (.member hkeyword hget hmem)
  simp only [List.mem_cons, List.not_mem_nil, or_false] at hkeyword ⊢
  tauto

theorem compileDependencies :
    Completes good (compileDependencies compile site schema) fun _ => True := by
  unfold CompileM.compileDependencies
  refine (object (hlegible.tables _ (by simp))).bind fun listed hlisted =>
    (reading site (hlisted ▸ hlegible.dependentRequired)).bind fun names _ =>
    (table hlegible hvisits "dependentSchemas" (by simp)).bind fun schemas _ =>
    (object (hlegible.tables _ (by simp))).bind fun older holder => ?_
  subst holder
  refine compileOlderDependencies _ _ hlegible.dependencies fun name value hmem hvalue => ?_
  obtain ⟨members, hget, hmem⟩ := mem_membersAt hmem
  exact hvisits _ _ _ (.dependency hget hmem hvalue)

theorem compilePatterns : Completes good
    (CompileM.compilePatternMembers compile site (schema.membersAt "patternProperties"))
    fun _ => True := by
  refine compilePatternMembers _ hlegible.patterns fun source value hmem => ?_
  obtain ⟨members, hget, hmem⟩ := mem_membersAt hmem
  exact hvisits _ _ _ (.member (by simp) hget hmem)

theorem compileObject : Completes good (compileObject compile site schema) fun _ => True := by
  unfold CompileM.compileObject
  refine (reading site hlegible.required).bind fun _ _ =>
    (table hlegible hvisits "properties" (by simp)).bind fun _ _ =>
    (object (hlegible.tables "patternProperties" (by simp))).bind fun patterns hpatterns => ?_
  subst hpatterns
  exact (compilePatterns hlegible hvisits).bind fun _ _ =>
    (single hvisits "additionalProperties" (by simp)).bind fun _ _ =>
    (reading site (hlegible.counts "minProperties" (by simp))).bind fun _ _ =>
    (reading site (hlegible.counts "maxProperties" (by simp))).bind fun _ _ =>
    (single hvisits "propertyNames" (by simp)).bind fun _ _ =>
    (compileDependencies hlegible hvisits).bind fun _ _ => pure _

theorem compileComposition :
    Completes good (compileComposition compile site schema) fun _ => True := by
  have hlist : ∀ keyword ∈ ["allOf", "anyOf", "oneOf"],
      Completes good (CompileM.childList compile site schema keyword) fun _ => True :=
    fun keyword hkeyword => childList (hlegible.lists keyword hkeyword)
      fun items i value hget hitem => hvisits _ _ _ (.item hkeyword hget hitem)
  unfold CompileM.compileComposition
  exact (hlist "allOf" (by simp)).bind fun _ _ => (hlist "anyOf" (by simp)).bind fun _ _ =>
    (hlist "oneOf" (by simp)).bind fun _ _ => (single hvisits "not" (by simp)).bind fun _ _ =>
    (single hvisits "if" (by simp)).bind fun _ _ => (single hvisits "then" (by simp)).bind fun _ _ =>
    (single hvisits "else" (by simp)).bind fun _ _ => pure _

omit hlegible hvisits in
theorem warnUnknown (hquiet : Quiet good) (options : CompileOptions) :
    Completes good (warnUnknown options site schema) fun _ => True := by
  unfold CompileM.warnUnknown
  induction schema.names.filter isUnknownKeyword with
  | nil => exact pure _
  | cons keyword rest ih =>
    have hfirst : Completes good (if options.strict = true then CompileM.warn
        ("Unknown keyword '" ++ keyword ++ "' at " ++ site.location ++ " is ignored")
        else Pure.pure ()) fun _ => True := by
      split
      · exact warn hquiet _
      · exact pure _
    exact hfirst.bind fun _ _ => ih

theorem compileKeywords (hquiet : Quiet good) (options : CompileOptions) (id : NodeId)
    (ref : Option String) :
    Completes good (compileKeywords options compile site id ref schema) fun node => node.id = id := by
  obtain ⟨value, hvalue⟩ := hlegible.value
  obtain ⟨string, hstring⟩ := hlegible.string
  unfold CompileM.compileKeywords
  refine (lift hvalue).bind fun _ _ => (reading site hlegible.number).bind
    fun _ _ => (lift hstring).bind fun _ _ => (compileArray hlegible hvisits).bind fun _ _ =>
    (compileObject hlegible hvisits).bind fun _ _ => (compileComposition hlegible hvisits).bind
    fun _ _ => (table hlegible hvisits "$defs" (by simp)).bind fun _ _ =>
    (table hlegible hvisits "definitions" (by simp)).bind fun _ _ =>
    (warnUnknown hquiet options).bind fun _ _ => ?_
  exact fun c hc => ⟨_, c, runs_pure.mpr ⟨rfl, rfl⟩, hc, rfl⟩

end

end Completes

end CompileM

end JsonSchema

import JsonSchema.Proofs.Schema.Yield

/-!
# What the keywords of a schema object yield

One statement for each step that reads keywords with schemas in them.
-/

namespace JsonSchema.CompileM

variable {compile : CompileChild} {site : Site} {schema : Members Json}

/-! ## Places under keywords -/

section

variable {keyword : String} {value : Json}

theorem leads_keyword (h : schema.get? keyword = some value) :
    (Json.obj schema).Leads [keyword] value :=
  Json.Leads.root.member (Members.mem_of_get? h)

theorem leads_item {items : List Json} {i : Nat} {item : Json}
    (h : schema.get? keyword = some (.arr items)) (hitem : items[i]? = some item) :
    (Json.obj schema).Leads [keyword, natText i] item :=
  (leads_keyword h).item hitem

theorem leads_member {name : String} {member : Json}
    (h : (name, member) ∈ schema.membersAt keyword) :
    (Json.obj schema).Leads [keyword, name] member := by
  unfold Members.membersAt at h
  split at h
  case h_1 members hget => exact (leads_keyword hget).member h
  case h_2 => simp at h

end

namespace Yields

/-! ## Keywords that hold schemas -/

theorem childOf (hcompile : Visits compile) (keyword : String) :
    Yields site schema (childOf compile site schema keyword) fun d child =>
      KeywordNode d site schema keyword child := by
  unfold CompileM.childOf KeywordNode
  cases hget : schema.get? keyword with
  | none => exact (pure none).mono fun d a ha => ha ▸ Option.Rel.none
  | some value =>
    have hchild := child site hcompile ⟨value, keyword, []⟩ (leads_keyword hget)
    refine (hchild.bind fun _ id _ => pure (some id)).mono ?_
    rintro d a ⟨id, hid, rfl⟩
    exact Option.Rel.some hid

theorem compileItems (hcompile : Visits compile) (keyword : String) (index : Nat)
    (items : List Json)
    (hleads : ∀ entry ∈ items.zipIdx index,
      (Json.obj schema).Leads [keyword, natText entry.2] entry.1) :
    Yields site schema (compileItems compile site keyword index items) fun d children =>
      List.Forall₂ (fun id entry => ChildNode d site keyword [natText entry.2] entry.1 id) children
        (items.zipIdx index) := by
  induction items generalizing index with
  | nil => exact (pure []).mono fun d a ha => ha ▸ List.Forall₂.nil
  | cons value rest ih =>
    rw [List.zipIdx_cons, List.forall_mem_cons] at hleads
    have hchild := child site hcompile ⟨value, keyword, [natText index]⟩ hleads.1
    refine (hchild.bind fun _ id _ => (ih (index + 1) hleads.2).bind fun _ ids _ =>
      pure (id :: ids)).mono ?_
    rintro d a ⟨id, hid, ids, hids, rfl⟩
    exact List.Forall₂.cons hid hids

theorem compileArrayItems (site : Site) (hcompile : Visits compile) {keyword : String}
    {items : List Json} (hget : schema.get? keyword = some (.arr items)) :
    Yields site schema (CompileM.compileItems compile site keyword 0 items) fun d children =>
      ItemNodes d site keyword items children := by
  refine compileItems hcompile keyword 0 items fun entry hentry => ?_
  exact leads_item hget (List.mk_mem_zipIdx_iff_getElem?.mp hentry)

theorem childList (hcompile : Visits compile) (keyword : String) :
    Yields site schema (childList compile site schema keyword) fun d children =>
      schema.HasList keyword ∧ ItemNodes d site keyword (schema.itemsAt keyword) children := by
  unfold CompileM.childList Members.itemsAt Members.HasList
  split
  case h_1 hget =>
    rw [hget]
    exact (pure []).mono fun d a ha => ⟨nofun, ha ▸ List.Forall₂.nil⟩
  case h_2 item items hget =>
    rw [hget]
    refine (compileArrayItems site hcompile hget).mono fun d children h => ⟨?_, h⟩
    rintro value ⟨⟩
    exact ⟨item, items, rfl⟩
  case h_3 => exact refuse

theorem compileMembers (hcompile : Visits compile) (keyword : String) (members : Members Json)
    (hleads : ∀ member ∈ members, (Json.obj schema).Leads [keyword, member.1] member.2) :
    Yields site schema (compileMembers compile site keyword members) fun d children =>
      MemberNodes d site keyword members children := by
  induction members with
  | nil => exact (pure []).mono fun d a ha => ha ▸ List.Forall₂.nil
  | cons member rest ih =>
    obtain ⟨name, value⟩ := member
    rw [List.forall_mem_cons] at hleads
    have hchild := child site hcompile ⟨value, keyword, [name]⟩ hleads.1
    refine (hchild.bind fun _ id _ => (ih hleads.2).bind fun _ ids _ =>
      pure ((name, id) :: ids)).mono ?_
    rintro d a ⟨id, hid, ids, hids, rfl⟩
    exact List.Forall₂.cons ⟨rfl, hid⟩ hids

theorem object (keyword : String) :
    Yields site schema (CompileM.reading site (schema.object keyword)) fun _ members =>
      schema.HasTable keyword ∧ members = schema.membersAt keyword :=
  (reading _).mono fun _ _ h => ⟨Members.hasTable_of_object h, Members.object_eq_ok h⟩

theorem childMembers (hcompile : Visits compile) (keyword : String) :
    Yields site schema (childMembers compile site schema keyword) fun d children =>
      schema.HasTable keyword ∧ MemberNodes d site keyword (schema.membersAt keyword) children := by
  refine ((object keyword).bind fun _ members hmembers => compileMembers hcompile keyword members
    fun member hmember => leads_member (hmembers.2 ▸ hmember)).mono ?_
  rintro d children ⟨members, ⟨htable, rfl⟩, hchildren⟩
  exact ⟨htable, hchildren⟩

theorem stopsWalk_of_readPattern {location keyword : String} {value : Json} {e : CompileFault}
    (hsource : ∀ source, value = .str source → schema.HasExpression source)
    (h : JsonSchema.readPattern location keyword value = .error e) :
    (Json.obj schema).StopsWalk e := by
  unfold JsonSchema.readPattern at h
  split at h
  case h_1 source =>
    split at h
    case h_1 => cases h
    case h_2 =>
      cases h
      exact .keyword
    case h_3 fault hbeyond hread =>
      cases h
      exact .escape (.expression .root (hsource source rfl) hread hbeyond)
  case h_2 =>
    cases h
    exact .keyword

theorem pattern (keyword : String) {source : String} (hsource : schema.HasExpression source) :
    Yields site schema (CompileM.lift (fun e => e) (readPattern site.location keyword (.str source)))
      fun _ pattern => Pattern.read source = .ok pattern := by
  have hfault : ∀ e, JsonSchema.readPattern site.location keyword (.str source) = .error e →
      (Json.obj schema).StopsWalk e := by
    refine fun e => stopsWalk_of_readPattern ?_
    rintro _ ⟨⟩
    exact hsource
  refine (lift _ hfault).mono fun _ pattern h => ?_
  cases hread : Pattern.read source with
  | ok found => simpa [JsonSchema.readPattern, hread] using h
  | error fault => cases fault <;> simp [JsonSchema.readPattern, hread] at h

theorem compilePatternMembers (hcompile : Visits compile) (members : Members Json)
    (hmembers : ∀ member ∈ members, member ∈ schema.membersAt "patternProperties") :
    Yields site schema (compilePatternMembers compile site members) fun d children =>
      PatternNodes d site members children := by
  induction members with
  | nil => exact (pure []).mono fun d a ha => ha ▸ List.Forall₂.nil
  | cons member rest ih =>
    obtain ⟨source, value⟩ := member
    rw [List.forall_mem_cons] at hmembers
    have hchild := child site hcompile ⟨value, "patternProperties", [source]⟩
      (leads_member hmembers.1)
    have hsource : schema.HasExpression source := .inr (List.mem_map.mpr ⟨_, hmembers.1, rfl⟩)
    refine ((pattern _ hsource).bind fun _ pattern _ => hchild.bind fun _ node _ =>
      (ih hmembers.2).bind fun _ children _ => pure (⟨pattern, node⟩ :: children)).mono ?_
    rintro d a ⟨pattern, hpattern, node, hnode, children, hchildren, rfl⟩
    exact List.Forall₂.cons ⟨hpattern, hnode⟩ hchildren

/-! ## Arrays -/

theorem compileOlderItems (hcompile : Visits compile) {items : List Json}
    (hget : schema.get? "items" = some (.arr items)) :
    Yields site schema (compileOlderItems compile site schema items) fun d children =>
      OlderItemNodes d site schema items children := by
  unfold CompileM.compileOlderItems
  cases hallowed : allowsOlderItems site.declaration with
  | false => exact refuse_bind
  | true =>
    cases halone : schema.has "prefixItems" with
    | true => exact refuse_bind
    | false =>
      have hfirst := compileArrayItems site hcompile hget
      cases hmore : schema.get? "additionalItems" with
      | none =>
        refine (hfirst.bind fun _ first _ => pure (ItemSchemas.mk first "items" none "items")).mono ?_
        rintro d _ ⟨first, hfirst, rfl⟩
        exact ⟨hallowed, halone, hfirst, rfl, by rw [KeywordNode, hmore]; exact .none, nofun⟩
      | some value =>
        have hrest := child site hcompile ⟨value, "additionalItems", []⟩ (leads_keyword hmore)
        refine (hfirst.bind fun _ first _ => hrest.bind fun _ rest _ =>
          pure (ItemSchemas.mk first "items" (some rest) "additionalItems")).mono ?_
        rintro d _ ⟨first, hfirst, rest, hrest, rfl⟩
        exact ⟨hallowed, halone, hfirst, rfl, by rw [KeywordNode, hmore]; exact .some hrest,
          fun _ => rfl⟩

theorem compileLatestItems (hcompile : Visits compile) :
    Yields site schema (compileLatestItems compile site schema) fun d children =>
      LatestItemNodes d site schema children := by
  have hrest : Yields site schema (CompileM.childOf compile site schema "items") _ :=
    childOf hcompile "items"
  unfold CompileM.compileLatestItems
  split
  case isTrue hallowed =>
    refine ((childList hcompile "prefixItems").bind fun _ first _ => hrest.bind fun _ rest _ =>
      pure (ItemSchemas.mk first "prefixItems" rest "items")).mono ?_
    rintro d _ ⟨first, ⟨hlist, hfirst⟩, rest, hrest, rfl⟩
    exact ⟨by rwa [if_pos hallowed], rfl, fun _ => hlist, hrest, rfl⟩
  case isFalse hallowed =>
    refine ((pure []).bind fun _ first _ => hrest.bind fun _ rest _ =>
      pure (ItemSchemas.mk first "prefixItems" rest "items")).mono ?_
    rintro d _ ⟨first, rfl, rest, hrest, rfl⟩
    exact ⟨by rw [if_neg hallowed]; exact List.Forall₂.nil, rfl, fun h => absurd h hallowed, hrest,
      rfl⟩

theorem compileItemSchemas (hcompile : Visits compile) :
    Yields site schema (compileItemSchemas compile site schema) fun d children =>
      ItemSchemaNodes d site schema children := by
  unfold CompileM.compileItemSchemas
  split
  case h_1 items hget =>
    refine (compileOlderItems hcompile hget).mono fun d children h => ?_
    rwa [ItemSchemaNodes, hget]
  case h_2 hnone =>
    refine (compileLatestItems hcompile).mono fun d children h => ?_
    unfold ItemSchemaNodes
    split
    case h_1 items hget => exact absurd hget (hnone items)
    case h_2 => exact h

theorem compileArray (hcompile : Visits compile) :
    Yields site schema (compileArray compile site schema) fun d keywords =>
      ArrayReading d site schema keywords := by
  refine ((reading _).bind fun _ minItems _ => (reading _).bind fun _ maxItems _ =>
    (reading _).bind fun _ uniqueItems _ => (compileItemSchemas hcompile).bind fun _ items _ =>
    (childOf hcompile "contains").bind fun _ contains _ => (reading _).bind fun _ minContains _ =>
    (reading _).bind fun _ maxContains _ => pure _).mono ?_
  rintro d _ ⟨minItems, hminItems, maxItems, hmaxItems, uniqueItems, huniqueItems, items, hitems,
    contains, hcontains, minContains, hminContains, maxContains, hmaxContains, rfl⟩
  exact ⟨hminItems, hmaxItems, huniqueItems, hitems, hcontains, hminContains, hmaxContains⟩

/-! ## Objects -/

theorem compileOlderDependencies (hcompile : Visits compile) (done : Dependencies)
    (members : Members Json)
    (hleads : ∀ member ∈ members, (Json.obj schema).Leads ["dependencies", member.1] member.2) :
    Yields site schema (compileOlderDependencies compile site done members) fun d result =>
      OlderDependencies d site done members result := by
  induction members generalizing done with
  | nil => exact (pure done).mono fun d a ha => ha ▸ OlderDependencies.none a
  | cons member rest ih =>
    obtain ⟨name, value⟩ := member
    rw [List.forall_mem_cons] at hleads
    unfold CompileM.compileOlderDependencies
    split
    case h_1 => simp_all
    case h_2 hmember =>
      cases hmember
      refine ((reading _).bind fun _ required _ => ih _ hleads.2).mono ?_
      rintro d result ⟨required, hrequired, hresult⟩
      exact .names hrequired hresult
    case h_3 hvalue hmember =>
      cases hmember
      have hchild := child site hcompile ⟨value, "dependencies", [name]⟩ hleads.1
      refine (hchild.bind fun _ id _ => ih _ hleads.2).mono ?_
      rintro d result ⟨id, hid, hresult⟩
      exact .schema hvalue hid hresult

theorem compileDependencies (hcompile : Visits compile) :
    Yields site schema (compileDependencies compile site schema) fun d dependencies =>
      (∀ keyword ∈ ["dependentRequired", "dependentSchemas", "dependencies"],
        schema.HasTable keyword) ∧ DependencyReading d site schema dependencies := by
  refine ((object _).bind fun _ listed _ => (reading _).bind fun _ names _ =>
    (childMembers hcompile "dependentSchemas").bind fun _ schemas _ =>
    (object "dependencies").bind fun _ older holder =>
    compileOlderDependencies hcompile _ older fun member hmember =>
      leads_member (holder.2 ▸ hmember)).mono ?_
  rintro d _ ⟨listed, ⟨hlisted, rfl⟩, names, hnames, schemas, ⟨hdependent, hschemas⟩, older,
    ⟨holder, rfl⟩, hresult⟩
  refine ⟨?_, names, schemas, hnames, hschemas, hresult⟩
  simp [hlisted, hdependent, holder]

theorem compileObject (hcompile : Visits compile) :
    Yields site schema (compileObject compile site schema) fun d keywords =>
      ObjectReading d site schema keywords := by
  refine ((reading _).bind fun _ required _ => (childMembers hcompile "properties").bind
    fun _ properties _ => (object "patternProperties").bind fun _ patterns hpatterns =>
    (compilePatternMembers hcompile patterns fun member hmember =>
      hpatterns.2 ▸ hmember).bind fun _ patternProperties _ =>
    (childOf hcompile "additionalProperties").bind fun _ additionalProperties _ =>
    (reading _).bind fun _ minProperties _ => (reading _).bind fun _ maxProperties _ =>
    (childOf hcompile "propertyNames").bind fun _ propertyNames _ =>
    (compileDependencies hcompile).bind fun _ dependencies _ => pure _).mono ?_
  rintro d _ ⟨required, hrequired, properties, ⟨hnamed, hproperties⟩, patterns, ⟨hmatching, rfl⟩,
    patternProperties, hpatternProperties, additionalProperties, hadditionalProperties,
    minProperties, hminProperties, maxProperties, hmaxProperties, propertyNames, hpropertyNames,
    dependencies, ⟨htables, hdependencies⟩, rfl⟩
  refine ⟨?_, ⟨required, hrequired, rfl⟩, hproperties, hpatternProperties, hadditionalProperties,
    hminProperties, hmaxProperties, hpropertyNames, hdependencies⟩
  rw [List.forall_mem_cons, List.forall_mem_cons]
  exact ⟨hnamed, hmatching, htables⟩

/-! ## Compositions -/

theorem compileComposition (hcompile : Visits compile) :
    Yields site schema (compileComposition compile site schema) fun d keywords =>
      CompositionReading d site schema keywords := by
  refine ((childList hcompile "allOf").bind fun _ allOf _ => (childList hcompile "anyOf").bind
    fun _ anyOf _ => (childList hcompile "oneOf").bind fun _ oneOf _ =>
    (childOf hcompile "not").bind fun _ negated _ => (childOf hcompile "if").bind
    fun _ condition _ => (childOf hcompile "then").bind fun _ consequent _ =>
    (childOf hcompile "else").bind fun _ alternative _ => pure _).mono ?_
  rintro d _ ⟨allOf, ⟨hall, hallOf⟩, anyOf, ⟨hany, hanyOf⟩, oneOf, ⟨hone, honeOf⟩, negated, hnegated,
    condition, hcondition, consequent, hconsequent, alternative, halternative, rfl⟩
  exact ⟨by simp [hall, hany, hone], hallOf, hanyOf, honeOf, hnegated, hcondition, hconsequent,
    halternative⟩

end Yields

end JsonSchema.CompileM

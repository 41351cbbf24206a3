import JsonSchema.Proofs.Json.Reorder
import JsonSchema.Proofs.Schema.Completion

/-!
# Schema objects with their keywords in another order

A reader finds the same keywords in both, so one is legible when the other is, and both have their
subschemas at the same places.
-/

namespace JsonSchema

open CompileM

/-! ## Drafts -/

structure DraftDeclaration.Agrees (a b : DraftDeclaration) : Prop where
  draft : a.draft = b.draft
  isDeclared : a.isDeclared = b.isDeclared
  isSupported : a.isSupported = b.isSupported
  hasText : a.hasText = b.hasText

theorem DraftDeclaration.Agrees.refl (a : DraftDeclaration) : a.Agrees a := ⟨rfl, rfl, rfl, rfl⟩

theorem DraftDeclaration.Agrees.symm {a b : DraftDeclaration} (h : a.Agrees b) : b.Agrees a :=
  ⟨h.draft.symm, h.isDeclared.symm, h.isSupported.symm, h.hasText.symm⟩

section

variable {a b : DraftDeclaration} (h : a.Agrees b)

include h

theorem allowsLatestItems_eq : allowsLatestItems a = allowsLatestItems b := by
  rw [allowsLatestItems, allowsLatestItems, h.draft, h.isDeclared]

theorem allowsOlderItems_eq : allowsOlderItems a = allowsOlderItems b := by
  rw [allowsOlderItems, allowsOlderItems, h.draft, h.isDeclared]

end

/-! ## Values -/

namespace Json.Reordered

variable {a b : Json} {as bs : List Json} {ms ns : Members Json}

theorem get? (h : (Json.obj ms).Reordered (.obj ns)) (name : String) :
    (ms.get? name = none ∧ ns.get? name = none) ∨
      ∃ a b, ms.get? name = some a ∧ ns.get? name = some b ∧ a.Reordered b := by
  obtain ⟨_, ⟨⟩, hrel⟩ := h.obj
  specialize hrel name
  generalize ms.get? name = found at hrel ⊢
  generalize ns.get? name = found' at hrel ⊢
  cases hrel with
  | none => exact .inl ⟨rfl, rfl⟩
  | some hab => exact .inr ⟨_, _, rfl, rfl, hab⟩

theorem member? (h : a.Reordered b) (name : String) :
    Option.Rel Json.Reordered (a.member? name) (b.member? name) := by
  cases h.parts with
  | obj h =>
    obtain ⟨_, ⟨⟩, hrel⟩ := h.obj
    exact hrel name
  | _ => exact .none

theorem string?_eq (h : a.Reordered b) : a.string? = b.string? := by
  cases h.parts <;> rfl

theorem isSchema_eq (h : a.Reordered b) : a.isSchema = b.isSchema := by
  cases h.parts <;> rfl

theorem mapM_string?_eq (h : List.Forall₂ Json.Reordered as bs) :
    as.mapM Json.string? = bs.mapM Json.string? := by
  induction h with
  | nil => rfl
  | cons hfirst _ ih => rw [List.mapM_cons, List.mapM_cons, hfirst.string?_eq, ih]

theorem stringList_eq (h : a.Reordered b) (keyword : String) :
    stringList keyword a = stringList keyword b := by
  cases h.parts with
  | arr hall => rw [stringList, stringList, mapM_string?_eq hall]
  | _ => rfl

theorem readPattern_eq (h : a.Reordered b) (location keyword : String) :
    readPattern location keyword a = readPattern location keyword b := by
  cases h.parts <;> rfl

theorem exists_readTypes (h : a.Reordered b) (ha : ∃ kinds, readTypes a = .ok kinds) :
    ∃ kinds, readTypes b = .ok kinds := by
  cases h.parts with
  | arr hall =>
    obtain ⟨kinds, ha⟩ := ha
    unfold readTypes at ha ⊢
    dsimp only at ha ⊢
    split at ha
    case h_1 hknown =>
      rw [List.filter_eq_nil_iff] at hknown
      rw [List.filter_eq_nil_iff.mpr]
      · exact ⟨_, rfl⟩
      · intro name hname
        obtain ⟨name', hname', hsame⟩ := exists_of_forall₂ hall.flip hname
        rw [← hsame.string?_eq]
        exact hknown name' hname'
    case h_2 => cases ha
  | _ => exact ha

end Json.Reordered

theorem DraftDeclaration.agrees_of_reordered {a b : Json} (h : a.Reordered b) :
    (ofJson? (a.member? "$schema")).Agrees (ofJson? (b.member? "$schema")) := by
  have hvalue := h.member? "$schema"
  generalize a.member? "$schema" = found at hvalue ⊢
  generalize b.member? "$schema" = found' at hvalue ⊢
  cases hvalue with
  | none => exact .refl _
  | some h =>
    have htext := h.hasText_eq
    cases h.parts with
    | arr | obj => exact ⟨rfl, rfl, rfl, htext⟩
    | _ => exact .refl _

theorem declaredBase_eq {a b : Json} (h : a.Reordered b) (key : String) :
    declaredBase key a = declaredBase key b := by
  have hid : (a.member? "$id").bind Json.string? = (b.member? "$id").bind Json.string? := by
    have hvalue := h.member? "$id"
    generalize a.member? "$id" = found at hvalue ⊢
    generalize b.member? "$id" = found' at hvalue ⊢
    cases hvalue with
    | none => rfl
    | some h => exact h.string?_eq
  rw [declaredBase, declaredBase, hid]

/-! ## Keywords -/

section

variable {schema schema' : Members Json} (h : (Json.obj schema).Reordered (.obj schema'))

include h

theorem number?_eq (keyword : String) : schema.number? keyword = schema'.number? keyword := by
  unfold Members.number?
  rcases h.get? keyword with ⟨ha, hb⟩ | ⟨a, b, ha, hb, hab⟩
  · rw [ha, hb]
  · rw [ha, hb]
    cases hab.parts <;> rfl

theorem count?_eq (keyword : String) : schema.count? keyword = schema'.count? keyword := by
  unfold Members.count?
  rcases h.get? keyword with ⟨ha, hb⟩ | ⟨a, b, ha, hb, hab⟩
  · rw [ha, hb]
  · rw [ha, hb]
    cases hab.parts <;> rfl

theorem bool_eq (keyword : String) : schema.bool keyword = schema'.bool keyword := by
  unfold Members.bool
  rcases h.get? keyword with ⟨ha, hb⟩ | ⟨a, b, ha, hb, hab⟩
  · rw [ha, hb]
  · rw [ha, hb]
    cases hab.parts <;> rfl

theorem has_eq (keyword : String) : schema.has keyword = schema'.has keyword := by
  unfold Members.has
  rcases h.get? keyword with ⟨ha, hb⟩ | ⟨a, b, ha, hb, -⟩ <;> simp [ha, hb]

theorem readRef_eq : readRef schema = readRef schema' := by
  unfold readRef
  rcases h.get? "$ref" with ⟨ha, hb⟩ | ⟨a, b, ha, hb, hab⟩
  · rw [ha, hb]
  · rw [ha, hb]
    cases hab.parts <;> rfl

theorem readAnchors_eq : readAnchors schema = readAnchors schema' := by
  have hanchor : readAnchor schema = readAnchor schema' := by
    unfold readAnchor
    rcases h.get? "$anchor" with ⟨ha, hb⟩ | ⟨a, b, ha, hb, hab⟩
    · rw [ha, hb]
    · rw [ha, hb]
      cases hab.parts <;> rfl
  have hid : (schema.get? "$id").bind Json.string? = (schema'.get? "$id").bind Json.string? := by
    rcases h.get? "$id" with ⟨ha, hb⟩ | ⟨a, b, ha, hb, hab⟩
    · rw [ha, hb]
    · rw [ha, hb]
      exact hab.string?_eq
  rw [readAnchors, readAnchors, identifierAnchor?, identifierAnchor?, hanchor, hid]

theorem readNumberKeywords_eq {a b : DraftDeclaration} (hagrees : a.Agrees b) :
    readNumberKeywords a schema = readNumberKeywords b schema' := by
  have hbound : ∀ keyword inclusive,
      readBound a schema keyword inclusive = readBound b schema' keyword inclusive := by
    intro keyword inclusive
    unfold readBound
    rw [number?_eq h, hagrees.draft, hagrees.isDeclared]
    rcases h.get? keyword with ⟨ha, hb⟩ | ⟨a, b, ha, hb, hab⟩
    · rw [ha, hb]
    · rw [ha, hb]
      cases hab.parts <;> rfl
  simp only [readNumberKeywords, number?_eq h, hbound]

theorem readStringKeywords_eq (location : String) :
    readStringKeywords location schema = readStringKeywords location schema' := by
  have hpattern : (schema.get? "pattern").mapM (readPattern location "pattern") =
      (schema'.get? "pattern").mapM (readPattern location "pattern") := by
    rcases h.get? "pattern" with ⟨ha, hb⟩ | ⟨a, b, ha, hb, hab⟩
    · rw [ha, hb]
    · rw [ha, hb, Option.mapM_some, Option.mapM_some, hab.readPattern_eq]
  unfold readStringKeywords
  rw [count?_eq h, count?_eq h, hpattern]
  rcases h.get? "format" with ⟨ha, hb⟩ | ⟨a, b, ha, hb, hab⟩
  · rw [ha, hb]
  · rw [ha, hb]
    cases hab.parts <;> rfl

theorem exists_readValueKeywords (hread : ∃ keywords, readValueKeywords schema = .ok keywords) :
    ∃ keywords, readValueKeywords schema' = .ok keywords := by
  obtain ⟨keywords, hread⟩ := hread
  obtain ⟨types, htypes, hread⟩ := Except.bind_eq_ok.mp hread
  obtain ⟨options, hoptions, -⟩ := Except.bind_eq_ok.mp hread
  have htypes' : ∃ types, (schema'.get? "type").mapM readTypes = .ok types := by
    rcases h.get? "type" with ⟨ha, hb⟩ | ⟨a, b, ha, hb, hab⟩
    · exact ⟨none, by rw [hb]; rfl⟩
    · rw [ha, Option.mapM_some] at htypes
      obtain ⟨kinds, hkinds, -⟩ := Except.bind_eq_ok.mp htypes
      obtain ⟨kinds', hkinds'⟩ := hab.exists_readTypes ⟨kinds, hkinds⟩
      exact ⟨some kinds', by rw [hb, Option.mapM_some, hkinds']; rfl⟩
  obtain ⟨types', htypes'⟩ := htypes'
  unfold readValueKeywords
  rw [htypes']
  rcases h.get? "enum" with ⟨ha, hb⟩ | ⟨a, b, ha, hb, hab⟩
  · rw [hb]
    exact ⟨_, rfl⟩
  · rw [hb]
    rw [ha] at hoptions
    cases hab.parts with
    | arr => exact ⟨_, rfl⟩
    | _ => cases hoptions

theorem HasList.reordered {keyword : String} (hlist : schema.HasList keyword) :
    schema'.HasList keyword := by
  intro value hget
  rcases h.get? keyword with ⟨ha, hb⟩ | ⟨a, b, ha, hb, hab⟩
  · rw [hb] at hget
    cases hget
  · obtain ⟨item, items, rfl⟩ := hlist a ha
    obtain rfl := Option.some.inj (hb.symm.trans hget)
    obtain ⟨bs, rfl, hall⟩ := hab.arr
    cases hall with
    | cons => exact ⟨_, _, rfl⟩

theorem HasTable.reordered {keyword : String} (htable : schema.HasTable keyword) :
    schema'.HasTable keyword := by
  intro value hget
  rcases h.get? keyword with ⟨ha, hb⟩ | ⟨a, b, ha, hb, hab⟩
  · rw [hb] at hget
    cases hget
  · obtain ⟨members, rfl⟩ := htable a ha
    obtain rfl := Option.some.inj (hb.symm.trans hget)
    obtain ⟨ns, rfl, -⟩ := hab.obj
    exact ⟨ns, rfl⟩

theorem exists_membersAt {keyword name : String} {value : Json}
    (hmem : (name, value) ∈ schema'.membersAt keyword) :
    ∃ value', (name, value') ∈ schema.membersAt keyword ∧ value'.Reordered value := by
  unfold Members.membersAt at hmem ⊢
  rcases h.get? keyword with ⟨ha, hb⟩ | ⟨a, b, ha, hb, hab⟩
  · simp [hb] at hmem
  · rw [hb] at hmem
    rw [ha]
    cases hab.parts with
    | obj hab =>
      obtain ⟨_, value', ⟨⟩, hmem', hvalue⟩ := hab.symm.member hmem
      exact ⟨value', hmem', hvalue.symm⟩
    | _ => simp at hmem

theorem required_eq : (schema.get? "required").mapM (stringList "required") =
    (schema'.get? "required").mapM (stringList "required") := by
  rcases h.get? "required" with ⟨ha, hb⟩ | ⟨a, b, ha, hb, hab⟩
  · rw [ha, hb]
  · rw [ha, hb, Option.mapM_some, Option.mapM_some, hab.stringList_eq]

end

theorem readNameLists_ok_iff {keyword : String} {members : Members Json} :
    (∃ lists, readNameLists keyword members = .ok lists) ↔
      ∀ entry ∈ members, ∃ names, stringList keyword entry.2 = .ok names := by
  induction members with
  | nil => exact ⟨fun _ => by simp, fun _ => ⟨[], rfl⟩⟩
  | cons entry rest ih =>
    rw [List.forall_mem_cons, ← ih]
    constructor
    · rintro ⟨lists, hread⟩
      obtain ⟨names, hnames, hread⟩ := Except.bind_eq_ok.mp hread
      obtain ⟨others, hothers, -⟩ := Except.bind_eq_ok.mp hread
      exact ⟨⟨names, hnames⟩, others, hothers⟩
    · rintro ⟨⟨names, hnames⟩, others, hothers⟩
      refine ⟨(entry.1, names) :: others, ?_⟩
      rw [readNameLists, hnames, hothers]
      rfl

/-! ## Schema objects -/

section

variable {schema schema' : Members Json} (h : (Json.obj schema).Reordered (.obj schema'))

include h

theorem get?_items_iff : (∃ items, schema.get? "items" = some (.arr items)) ↔
    ∃ items, schema'.get? "items" = some (.arr items) := by
  rcases h.get? "items" with ⟨ha, hb⟩ | ⟨a, b, ha, hb, hab⟩
  · simp [ha, hb]
  · rw [ha, hb]
    cases hab.parts <;> simp

theorem Legible.reordered {site site' : Site} (hlegible : Legible site schema)
    (hlocation : site.location = site'.location)
    (hagrees : site.declaration.Agrees site'.declaration) : Legible site' schema' where
  ref := readRef_eq h ▸ hlegible.ref
  anchors := readAnchors_eq h ▸ hlegible.anchors
  value := exists_readValueKeywords h hlegible.value
  number := readNumberKeywords_eq h hagrees ▸ hlegible.number
  string := hlocation ▸ readStringKeywords_eq h _ ▸ hlegible.string
  counts keyword hkeyword := count?_eq h keyword ▸ hlegible.counts keyword hkeyword
  uniqueItems := bool_eq h _ ▸ hlegible.uniqueItems
  lists keyword hkeyword := HasList.reordered h (hlegible.lists keyword hkeyword)
  latestItems hlatest hallowed := by
    refine HasList.reordered h (hlegible.latestItems (fun items hget => ?_) ?_)
    · obtain ⟨items', hget'⟩ := (get?_items_iff h).mp ⟨items, hget⟩
      exact hlatest items' hget'
    · rw [allowsLatestItems_eq hagrees, hallowed]
  olderItems items hget := by
    obtain ⟨items', hget'⟩ := (get?_items_iff h).mpr ⟨items, hget⟩
    obtain ⟨hallowed, halone⟩ := hlegible.olderItems items' hget'
    exact ⟨allowsOlderItems_eq hagrees ▸ hallowed, has_eq h _ ▸ halone⟩
  tables keyword hkeyword := HasTable.reordered h (hlegible.tables keyword hkeyword)
  patterns source value hmem := by
    obtain ⟨value', hmem', -⟩ := exists_membersAt h hmem
    exact hlegible.patterns source value' hmem'
  required := required_eq h ▸ hlegible.required
  dependentRequired := by
    rw [readNameLists_ok_iff]
    rintro ⟨name, value⟩ hmem
    obtain ⟨value', hmem', hvalue⟩ := exists_membersAt h hmem
    rw [← hvalue.stringList_eq]
    exact readNameLists_ok_iff.mp hlegible.dependentRequired _ hmem'
  dependencies name items hmem := by
    obtain ⟨value', hmem', hvalue⟩ := exists_membersAt h hmem
    obtain ⟨items', rfl, -⟩ := hvalue.symm.arr
    rw [← hvalue.stringList_eq]
    exact hlegible.dependencies name items' hmem'

theorem Json.Reordered.get?_some {keyword : String} {value : Json}
    (hget : schema.get? keyword = some value) :
    ∃ value', schema'.get? keyword = some value' ∧ value.Reordered value' := by
  rcases h.get? keyword with ⟨ha, -⟩ | ⟨a, b, ha, hb, hab⟩
  · rw [ha] at hget
    cases hget
  · obtain rfl := Option.some.inj (ha.symm.trans hget)
    exact ⟨b, hb, hab⟩

theorem exists_item {keyword : String} {items : List Json} {i : Nat} {value : Json}
    (hget : schema.get? keyword = some (.arr items)) (hitem : items[i]? = some value) :
    ∃ items' value', schema'.get? keyword = some (.arr items') ∧ items'[i]? = some value' ∧
      value.Reordered value' := by
  obtain ⟨array, hget', hab⟩ := h.get?_some hget
  obtain ⟨items', value', rfl, hitem', hvalue⟩ := hab.item hitem
  exact ⟨items', value', hget', hitem', hvalue⟩

theorem exists_member {keyword name : String} {members : Members Json} {value : Json}
    (hget : schema.get? keyword = some (.obj members)) (hmem : (name, value) ∈ members) :
    ∃ members' value', schema'.get? keyword = some (.obj members') ∧ (name, value') ∈ members' ∧
      value.Reordered value' := by
  obtain ⟨table, hget', hab⟩ := h.get?_some hget
  obtain ⟨members', value', rfl, hmem', hvalue⟩ := hab.member hmem
  exact ⟨members', value', hget', hmem', hvalue⟩

theorem Subschema.reordered {a b : DraftDeclaration} (hagrees : a.Agrees b) {keyword : String}
    {tokens : List String} {value : Json} (hsub : Subschema a schema keyword tokens value) :
    ∃ value', Subschema b schema' keyword tokens value' ∧ value.Reordered value' := by
  have hother : ∀ {value value' : Json}, value.Reordered value' → (∀ items, value ≠ .arr items) →
      ∀ items, value' ≠ .arr items := by
    rintro value _ hvalue hnot items rfl
    obtain ⟨items', rfl, -⟩ := hvalue.symm.arr
    exact hnot items' rfl
  cases hsub with
  | single hkeyword hget =>
    obtain ⟨value', hget', hvalue⟩ := h.get?_some hget
    exact ⟨value', .single hkeyword hget', hvalue⟩
  | item hkeyword hget hitem =>
    obtain ⟨items', value', hget', hitem', hvalue⟩ := exists_item h hget hitem
    exact ⟨value', .item hkeyword hget' hitem', hvalue⟩
  | member hkeyword hget hmem =>
    obtain ⟨members', value', hget', hmem', hvalue⟩ := exists_member h hget hmem
    exact ⟨value', .member hkeyword hget' hmem', hvalue⟩
  | dependency hget hmem hnot =>
    obtain ⟨members', value', hget', hmem', hvalue⟩ := exists_member h hget hmem
    exact ⟨value', .dependency hget' hmem' (hother hvalue hnot), hvalue⟩
  | items hget hnot =>
    obtain ⟨value', hget', hvalue⟩ := h.get?_some hget
    exact ⟨value', .items hget' (hother hvalue hnot), hvalue⟩
  | prefixItem hlatest hallowed hget hitem =>
    obtain ⟨items', value', hget', hitem', hvalue⟩ := exists_item h hget hitem
    refine ⟨value', .prefixItem (fun items hget => ?_) ?_ hget' hitem', hvalue⟩
    · obtain ⟨items, hget⟩ := (get?_items_iff h).mpr ⟨items, hget⟩
      exact hlatest items hget
    · exact allowsLatestItems_eq hagrees ▸ hallowed
  | olderItem hget hitem =>
    obtain ⟨items', value', hget', hitem', hvalue⟩ := exists_item h hget hitem
    exact ⟨value', .olderItem hget' hitem', hvalue⟩
  | additionalItems holder hget =>
    obtain ⟨items', holder'⟩ := (get?_items_iff h).mp ⟨_, holder⟩
    obtain ⟨value', hget', hvalue⟩ := h.get?_some hget
    exact ⟨value', .additionalItems holder' hget', hvalue⟩

end

/-! ## Walks -/

section

variable {v w : Json}

theorem anchorNames_eq (h : v.Reordered w) : v.anchorNames = w.anchorNames := by
  cases h.parts with
  | obj h => rw [Json.anchorNames, Json.anchorNames, readAnchors_eq h]
  | _ => rfl

theorem Json.Walked.reordered {a b : DraftDeclaration} (h : v.Reordered w) (hagrees : a.Agrees b)
    {tokens : List String} {value : Json} (hwalked : v.Walked a tokens value) :
    ∃ value', w.Walked b tokens value' ∧ value.Reordered value' := by
  induction hwalked with
  | root => exact ⟨w, .root, h⟩
  | child _ hchild ih =>
    obtain ⟨parent, hparent, hab⟩ := ih
    obtain ⟨schema', rfl, -⟩ := hab.obj
    obtain ⟨value', hchild', hvalue⟩ := hchild.reordered hab hagrees
    exact ⟨value', hparent.child hchild', hvalue⟩

end

end JsonSchema

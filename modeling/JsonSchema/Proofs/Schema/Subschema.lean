import JsonSchema.Proofs.Relation
import JsonSchema.Proofs.Schema.Result

/-!
# Schemas inside a schema object

Where a schema object holds other schemas, and so which places of a document a walk from its root
meets. Each of them has its node as soon as the root has one.
-/

namespace JsonSchema

open CompileM

/-- The value behind a keyword of a schema object, and tokens after it, is a schema. -/
inductive Subschema (declaration : DraftDeclaration) (schema : Members Json) :
    (keyword : String) → (tokens : List String) → (value : Json) → Prop where
  | single {keyword : String} {value : Json}
      (hkeyword : keyword ∈ ["contains", "additionalProperties", "propertyNames", "not", "if",
        "then", "else"])
      (hget : schema.get? keyword = some value) : Subschema declaration schema keyword [] value
  | item {keyword : String} {items : List Json} {i : Nat} {value : Json}
      (hkeyword : keyword ∈ ["allOf", "anyOf", "oneOf"])
      (hget : schema.get? keyword = some (.arr items)) (hitem : items[i]? = some value) :
      Subschema declaration schema keyword [natText i] value
  | member {keyword : String} {members : Members Json} {name : String} {value : Json}
      (hkeyword : keyword ∈ ["properties", "patternProperties", "dependentSchemas", "$defs",
        "definitions"])
      (hget : schema.get? keyword = some (.obj members)) (hmem : (name, value) ∈ members) :
      Subschema declaration schema keyword [name] value
  | dependency {members : Members Json} {name : String} {value : Json}
      (hget : schema.get? "dependencies" = some (.obj members)) (hmem : (name, value) ∈ members)
      (hvalue : ∀ items, value ≠ .arr items) :
      Subschema declaration schema "dependencies" [name] value
  | items {value : Json} (hget : schema.get? "items" = some value)
      (hvalue : ∀ items, value ≠ .arr items) : Subschema declaration schema "items" [] value
  | prefixItem {items : List Json} {i : Nat} {value : Json}
      (hlatest : ∀ items, schema.get? "items" ≠ some (.arr items))
      (hallowed : allowsLatestItems declaration = true)
      (hget : schema.get? "prefixItems" = some (.arr items)) (hitem : items[i]? = some value) :
      Subschema declaration schema "prefixItems" [natText i] value
  | olderItem {items : List Json} {i : Nat} {value : Json}
      (hget : schema.get? "items" = some (.arr items)) (hitem : items[i]? = some value) :
      Subschema declaration schema "items" [natText i] value
  | additionalItems {items : List Json} {value : Json}
      (holder : schema.get? "items" = some (.arr items))
      (hget : schema.get? "additionalItems" = some value) :
      Subschema declaration schema "additionalItems" [] value

/-- A walk from the root of a document meets this value. -/
inductive Json.Walked (declaration : DraftDeclaration) (document : Json) :
    List String → Json → Prop where
  | root : Walked declaration document [] document
  | child {tokens more : List String} {schema : Members Json} {keyword : String} {value : Json}
      (hparent : Walked declaration document tokens (.obj schema))
      (hchild : Subschema declaration schema keyword more value) :
      Walked declaration document (tokens ++ keyword :: more) value

variable {declaration : DraftDeclaration} {schema : Members Json} {keyword : String}
  {tokens : List String} {value : Json}

theorem Subschema.leads (h : Subschema declaration schema keyword tokens value) :
    (Json.obj schema).Leads (keyword :: tokens) value := by
  cases h with
  | single _ hget | items hget | additionalItems _ hget => exact leads_keyword hget
  | item _ hget hitem | prefixItem _ _ hget hitem | olderItem hget hitem =>
    exact leads_item hget hitem
  | member _ hget hmem | dependency hget hmem => exact (leads_keyword hget).member hmem

theorem Json.Walked.leads {document : Json} (h : document.Walked declaration tokens value) :
    document.Leads tokens value := by
  induction h with
  | root => exact .root
  | child _ hchild ih => exact ih.append hchild.leads

namespace Members

theorem itemsAt_eq {items : List Json} (h : schema.get? keyword = some (.arr items)) :
    schema.itemsAt keyword = items := by
  rw [itemsAt, h]

theorem membersAt_eq {members : Members Json} (h : schema.get? keyword = some (.obj members)) :
    schema.membersAt keyword = members := by
  rw [membersAt, h]

end Members

/-! ## Subschemas have nodes -/

section

variable {c : Compilation} {site : Site}

theorem KeywordNode.exists_child {child : Option NodeId} (h : KeywordNode c site schema keyword child)
    (hget : schema.get? keyword = some value) : ∃ id, ChildNode c site keyword [] value id := by
  rw [KeywordNode, hget] at h
  obtain @⟨id, _, hnode⟩ := h
  exact ⟨id, hnode⟩

theorem ItemNodes.exists_child {items : List Json} {children : List NodeId} {i : Nat}
    (h : ItemNodes c site keyword items children) (hitem : items[i]? = some value) :
    ∃ id, ChildNode c site keyword [natText i] value id := by
  obtain ⟨id, -, hnode⟩ := exists_of_forall₂ h.flip (List.mk_mem_zipIdx_iff_getElem?.mpr hitem)
  exact ⟨id, hnode⟩

theorem MemberNodes.exists_child {members : Members Json} {children : Members NodeId} {name : String}
    (h : MemberNodes c site keyword members children) (hmem : (name, value) ∈ members) :
    ∃ id, ChildNode c site keyword [name] value id := by
  obtain ⟨child, -, -, hnode⟩ := exists_of_forall₂ h.flip hmem
  exact ⟨child.2, hnode⟩

theorem OlderDependencies.exists_child {done result : Dependencies} {older : Members Json}
    {name : String} (h : OlderDependencies c site done older result) (hmem : (name, value) ∈ older)
    (hvalue : ∀ items, value ≠ .arr items) :
    ∃ id, ChildNode c site "dependencies" [name] value id := by
  induction h with
  | none => simp at hmem
  | names _ _ ih =>
    rcases List.mem_cons.mp hmem with heq | hrest
    · exact absurd (Prod.mk.inj heq).2 (hvalue _)
    · exact ih hrest
  | schema _ hnode _ ih =>
    rcases List.mem_cons.mp hmem with heq | hrest
    · obtain ⟨rfl, rfl⟩ := Prod.mk.inj heq
      exact ⟨_, hnode⟩
    · exact ih hrest

theorem SchemaReading.exists_child {node : SchemaNode} (h : SchemaReading c site schema node)
    (hchild : Subschema site.declaration schema keyword tokens value) :
    ∃ id, ChildNode c site keyword tokens value id := by
  have hitems := h.array.items
  unfold ItemSchemaNodes at hitems
  cases hchild with
  | single hkeyword hget =>
    simp only [List.mem_cons, List.not_mem_nil, or_false] at hkeyword
    rcases hkeyword with rfl | rfl | rfl | rfl | rfl | rfl | rfl
    · exact h.array.contains.exists_child hget
    · exact h.object.additionalProperties.exists_child hget
    · exact h.object.propertyNames.exists_child hget
    · exact h.composition.negated.exists_child hget
    · exact h.composition.condition.exists_child hget
    · exact h.composition.consequent.exists_child hget
    · exact h.composition.alternative.exists_child hget
  | item hkeyword hget hitem =>
    rw [← Members.itemsAt_eq hget] at hitem
    simp only [List.mem_cons, List.not_mem_nil, or_false] at hkeyword
    rcases hkeyword with rfl | rfl | rfl
    · exact h.composition.allOf.exists_child hitem
    · exact h.composition.anyOf.exists_child hitem
    · exact h.composition.oneOf.exists_child hitem
  | member hkeyword hget hmem =>
    rw [← Members.membersAt_eq hget] at hmem
    simp only [List.mem_cons, List.not_mem_nil, or_false] at hkeyword
    rcases hkeyword with rfl | rfl | rfl | rfl | rfl
    · exact h.object.properties.exists_child hmem
    · obtain ⟨child, -, -, hnode⟩ := exists_of_forall₂ h.object.patternProperties.flip hmem
      exact ⟨child.node, hnode⟩
    · obtain ⟨names, schemas, -, hschemas, -⟩ := h.object.dependencies
      exact hschemas.exists_child hmem
    · obtain ⟨children, hnodes⟩ := h.defs.nodes
      exact hnodes.exists_child hmem
    · obtain ⟨children, hnodes⟩ := h.definitions.nodes
      exact hnodes.exists_child hmem
  | dependency hget hmem hvalue =>
    obtain ⟨names, schemas, -, -, holder⟩ := h.object.dependencies
    rw [Members.membersAt_eq hget] at holder
    exact holder.exists_child hmem hvalue
  | items hget hvalue =>
    split at hitems
    case h_1 items hget' => exact absurd (Option.some.inj (hget.symm.trans hget')) (hvalue items)
    case h_2 => exact hitems.rest.exists_child hget
  | prefixItem hlatest hallowed hget hitem =>
    split at hitems
    case h_1 items hget' => exact absurd hget' (hlatest items)
    case h_2 =>
      have hfirst := hitems.first
      rw [if_pos hallowed, Members.itemsAt_eq hget] at hfirst
      exact ItemNodes.exists_child hfirst hitem
  | olderItem hget hitem =>
    rw [hget] at hitems
    exact ItemNodes.exists_child hitems.first hitem
  | additionalItems holder hget =>
    rw [holder] at hitems
    exact hitems.rest.exists_child hget

end

/-- Once its root has a node, so has every value that a walk from the root meets. -/
theorem Compilation.Sound.nodeOf_walked {options : CompileOptions} {root : Json} {c : Compilation}
    {current : List PendingRef} {key : String} {document : SourceDocument}
    (h : Sound options root current c) (hdocument : Members.get? c.documents key = some document)
    (hwell : document.content.isWellFormed = true) (hroot : ∃ id, c.Located key "" id)
    (hwalked : document.content.Walked document.declaration tokens value) :
    ∃ id, c.NodeOf key (Pointer.ofTokens tokens) value id := by
  induction hwalked with
  | root =>
    obtain ⟨id, hlocated⟩ := hroot
    exact ⟨id, hlocated, stands_root hdocument⟩
  | child _ hchild ih =>
    obtain ⟨parent, hnode⟩ := ih
    obtain ⟨site, node, hbuilt, -, -, rfl, hpointer⟩ := h.built_of_nodeOf hdocument hwell hnode
    obtain ⟨found, hfound, hdeclaration⟩ := hbuilt.declaration
    obtain rfl := Option.some.inj (hdocument.symm.trans hfound)
    rw [hdeclaration] at hchild
    obtain ⟨id, hchild⟩ := SchemaReading.exists_child (hbuilt.reading c (Extends.refl c)) hchild
    rw [ChildNode, hpointer, Pointer.join_ofTokens] at hchild
    exact ⟨id, hchild⟩

end JsonSchema

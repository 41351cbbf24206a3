import JsonSchema.Proofs.Schema.Reorder

/-!
# Documents whose references can be resolved in any order

References are resolved one after the other, and what one of them brings in can be seen by the next
one: a document under the URI that it declares for itself, or a place that no walk from the root of
its document meets, with the anchors in it. Where nothing of the kind is there to be seen, the order
makes no difference.
-/

namespace JsonSchema

open CompileM

/-- All of a document can be reached, and each anchor name means one place that the walk meets. -/
structure Json.Orderly (options : CompileOptions) (content : Json) : Prop where
  wellFormed : content.isWellFormed = true
  nesting : ∀ tokens value, content.Leads tokens value → (tokens.length : Int) ≤ options.maxDepth
  indices : ∀ tokens items, content.Leads tokens (.arr items) → items.length ≤ 10 ^ maxIntegerDigits
  walked : ∀ tokens value, content.Leads tokens value → value.anchorNames ≠ [] →
    content.Walked (DraftDeclaration.ofJson? (content.member? "$schema")) tokens value
  once : ∀ tokens tokens' value value' name, content.Leads tokens value →
    content.Leads tokens' value' → name ∈ value.anchorNames → name ∈ value'.anchorNames →
    tokens = tokens'

/--
The documents are orderly, registered documents go by their keys alone, and the pointers of
references have their indices written the usual way.
-/
structure CompileOptions.Orderly (options : CompileOptions) (root : Json) : Prop where
  documents : ∀ key content, options.source? root key = some content → content.Orderly options
  keyed : options.Keyed
  pointers : ∀ key content, options.source? root key = some content →
    ∀ tokens ∈ options.entries root, ∀ value, Pointer.resolve content tokens = .ok value →
      content.Leads tokens value

/-! ## Reordered documents -/

section

variable {options : CompileOptions} {v w root root' : Json}

theorem exists_item_of_mem_strings {items : List Json} {s : String} (h : s ∈ itemStrings items) :
    ∃ item ∈ items, s ∈ item.strings := by
  induction items with
  | nil => simp [itemStrings] at h
  | cons first rest ih =>
    rcases List.mem_append.mp h with h | h
    · exact ⟨first, List.mem_cons_self, h⟩
    · obtain ⟨item, hitem, hs⟩ := ih h
      exact ⟨item, List.mem_cons_of_mem _ hitem, hs⟩

theorem exists_member_of_mem_strings {members : Members Json} {s : String}
    (h : s ∈ memberStrings members) : ∃ member ∈ members, s ∈ member.2.strings := by
  induction members with
  | nil => simp [memberStrings] at h
  | cons first rest ih =>
    rcases List.mem_append.mp h with h | h
    · exact ⟨first, List.mem_cons_self, h⟩
    · obtain ⟨member, hmember, hs⟩ := ih h
      exact ⟨member, List.mem_cons_of_mem _ hmember, hs⟩

theorem Json.exists_leads_of_mem_strings {s : String} (h : s ∈ v.strings) :
    ∃ tokens, v.Leads tokens (.str s) := by
  induction v using induction_parts with
  | str t =>
    obtain rfl := List.mem_singleton.mp h
    exact ⟨[], .root⟩
  | arr items ih =>
    obtain ⟨item, hmem, hs⟩ := exists_item_of_mem_strings h
    obtain ⟨i, hitem⟩ := List.mem_iff_getElem?.mp hmem
    obtain ⟨tokens, hleads⟩ := ih item hmem hs
    exact ⟨_, (Leads.root.item hitem).append hleads⟩
  | obj members ih =>
    obtain ⟨⟨name, value⟩, hmem, hs⟩ := exists_member_of_mem_strings h
    obtain ⟨tokens, hleads⟩ := ih name value hmem hs
    exact ⟨_, (Leads.root.member hmem).append hleads⟩
  | _ => simp [Json.strings] at h

theorem Json.Reordered.strings_subset (h : v.Reordered w) : v.strings ⊆ w.strings := by
  intro s hs
  obtain ⟨tokens, hleads⟩ := exists_leads_of_mem_strings hs
  obtain ⟨b, hleads', hab⟩ := h.leads hleads
  cases hab.parts
  exact hleads'.at.strings_subset (by simp [Json.strings])

theorem Json.Orderly.reordered (h : v.Reordered w) (hv : v.Orderly options) :
    w.Orderly options where
  wellFormed := h.right
  nesting tokens value hleads := by
    obtain ⟨a, ha, -⟩ := h.symm.leads hleads
    exact hv.nesting tokens a ha
  indices tokens items hleads := by
    obtain ⟨a, ha, hab⟩ := h.symm.leads hleads
    obtain ⟨items', rfl, hall⟩ := hab.arr
    exact hall.length_eq ▸ hv.indices tokens items' ha
  walked tokens value hleads hnames := by
    obtain ⟨a, ha, hab⟩ := h.symm.leads hleads
    obtain ⟨value', hwalked, -⟩ := (hv.walked tokens a ha (anchorNames_eq hab ▸ hnames)).reordered h
      (DraftDeclaration.agrees_of_reordered h)
    exact hwalked.leads.at.unique h.right hleads.at ▸ hwalked
  once tokens tokens' value value' name hleads hleads' hname hname' := by
    obtain ⟨a, ha, hab⟩ := h.symm.leads hleads
    obtain ⟨a', ha', hab'⟩ := h.symm.leads hleads'
    exact hv.once tokens tokens' a a' name ha ha' (anchorNames_eq hab ▸ hname)
      (anchorNames_eq hab' ▸ hname')

theorem CompileOptions.entries_subset (h : root.Reordered root') :
    options.entries root' ⊆ options.entries root := by
  intro tokens htokens
  rcases List.mem_cons.mp htokens with rfl | htokens
  · exact List.mem_cons_self
  obtain ⟨source, hsource, htokens⟩ := List.mem_flatMap.mp htokens
  obtain ⟨ref, href, hpointer⟩ := List.mem_filterMap.mp htokens
  refine List.mem_cons_of_mem _ ?_
  rcases List.mem_cons.mp hsource with rfl | hsource
  · refine List.mem_flatMap.mpr ⟨_, List.mem_cons_self, List.mem_filterMap.mpr ⟨ref, ?_, ?_⟩⟩
    · exact h.symm.strings_subset href
    · rwa [pointerOf, declaredBase_eq h]
  · exact List.mem_flatMap.mpr ⟨source, List.mem_cons_of_mem _ hsource, htokens⟩

theorem CompileOptions.exists_source (h : root.Reordered root') {key : String} {content : Json}
    (hwell : ∀ key content, options.source? root key = some content → content.isWellFormed = true)
    (hcontent : options.source? root' key = some content) :
    ∃ content', options.source? root key = some content' ∧ content'.Reordered content := by
  unfold source? at hwell hcontent ⊢
  split at hcontent
  case isTrue hkey =>
    obtain rfl := Option.some.inj hcontent
    exact ⟨root, if_pos hkey, h⟩
  case isFalse hkey =>
    rw [if_neg hkey]
    exact ⟨content, hcontent, .refl (hwell key content (by rwa [if_neg hkey]))⟩

theorem CompileOptions.Orderly.reordered (h : root.Reordered root')
    (horderly : options.Orderly root) : options.Orderly root' where
  documents key content hcontent := by
    obtain ⟨content', hcontent', hsame⟩ := exists_source h
      (fun key content hget => (horderly.documents key content hget).wellFormed) hcontent
    exact (horderly.documents key content' hcontent').reordered hsame
  keyed := horderly.keyed
  pointers key content hcontent tokens htokens value hvalue := by
    obtain ⟨content', hcontent', hsame⟩ := exists_source h
      (fun key content hget => (horderly.documents key content hget).wellFormed) hcontent
    obtain ⟨value', hvalue', -⟩ := hsame.symm.resolve hvalue
    have hleads := horderly.pointers key content' hcontent' tokens (entries_subset h htokens) value'
      hvalue'
    obtain ⟨found, hfound, -⟩ := hsame.leads hleads
    exact (Pointer.resolve_at hvalue).unique hsame.right hfound.at ▸ hfound

end

/-! ## Nodes of orderly documents -/

namespace Compilation

variable {options : CompileOptions} {root : Json} {c : Compilation} {current : List PendingRef}
  {id : NodeId} {site : Site} {value : Json} {node : SchemaNode} {key name : String}
  {tokens : List String} {document : SourceDocument}

theorem Source.orderly (h : Source options root key document) (horderly : options.Orderly root) :
    document.content.Orderly options := horderly.documents key document.content h.content

theorem Sound.leads (h : Sound options root current c) (horderly : options.Orderly root)
    (hbuilt : c.Built id site value node) : ∃ document tokens,
      Members.get? c.documents site.key = some document ∧
      site.pointer = Pointer.ofTokens tokens ∧ document.content.Leads tokens value := by
  obtain ⟨site', value', node', hbuilt', htraced, -⟩ := h.built id hbuilt.lt
  obtain ⟨hkey, hpointer⟩ :=
    (hbuilt.located_iff h.loaded (hbuilt'.hash h.loaded)).mp hbuilt'.nodeOf.located
  obtain ⟨content, entry, start, hcontent, hentry, hresolve, -, more, inner, hmore, hjoin⟩ := htraced
  have hleads : content.Leads (entry ++ more) inner :=
    (horderly.pointers _ _ hcontent entry hentry start hresolve).append hmore
  obtain ⟨document, tokens, hdocument, htokens, hat⟩ := hbuilt.nodeOf.stands
  have hsource := h.loaded.source hdocument
  rw [hkey, hsource.content, Option.some.injEq] at hcontent
  subst hcontent
  rw [hpointer, htokens, Pointer.join_ofTokens] at hjoin
  obtain rfl := Pointer.ofTokens_injective hjoin
  obtain rfl := hat.unique (hsource.orderly horderly).wellFormed hleads.at
  exact ⟨document, entry ++ more, hdocument, htokens, hleads⟩

theorem Sound.walked_of_anchor (h : Sound options root current c) (horderly : options.Orderly root)
    (hanchor : ((key, name), id) ∈ c.anchors) : ∃ document tokens value,
      Members.get? c.documents key = some document ∧ c.Located key (Pointer.ofTokens tokens) id ∧
      document.content.Walked document.declaration tokens value ∧ name ∈ value.anchorNames := by
  obtain ⟨site, value, node, hbuilt, rfl, hname⟩ := h.anchors _ hanchor
  obtain ⟨document, tokens, hdocument, hpointer, hleads⟩ := h.leads horderly hbuilt
  have hsource := h.loaded.source hdocument
  refine ⟨document, tokens, value, hdocument, hpointer ▸ hbuilt.nodeOf.located, ?_, hname⟩
  rw [hsource.declaration]
  exact (hsource.orderly horderly).walked tokens value hleads (List.ne_nil_of_mem hname)

/-- Once its root has a node, all anchors that the walk through a document meets are declared. -/
theorem Sound.anchor_of_walked (h : Sound options root current c)
    (hdocument : Members.get? c.documents key = some document)
    (hwell : document.content.isWellFormed = true) (hroot : ∃ id, c.Located key "" id)
    (hwalked : document.content.Walked document.declaration tokens value)
    (hname : name ∈ value.anchorNames) : ∃ id, ((key, name), id) ∈ c.anchors := by
  obtain ⟨id, hnode⟩ := h.nodeOf_walked hdocument hwell hroot hwalked
  obtain ⟨site, node, -, -, hnames, -, -⟩ := h.built_of_nodeOf hdocument hwell hnode
  exact ⟨id, hnames name hname⟩

end Compilation

end JsonSchema

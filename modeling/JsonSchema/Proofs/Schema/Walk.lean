import JsonSchema.Proofs.Schema.Reading

/-!
# What a walk adds

A walk over a place and all places under it adds finished nodes, the references that wait in them,
and the anchors that they declare. It leaves documents and targets alone.
-/

namespace JsonSchema.Compilation

open CompileM

variable {c c' c'' d : Compilation} {id : NodeId} {site : Site} {value : Json}
  {node : SchemaNode} {sites : Site → Prop}

/-! ## Finished nodes -/

/-- The node of a value is finished, and stays so in all later states. -/
structure Built (c : Compilation) (id : NodeId) (site : Site) (value : Json) (node : SchemaNode) :
    Prop where
  placed : c.nodes[id]? = some (some node)
  index : node.id = id
  nodeOf : c.NodeOf site.key site.pointer value id
  declaration : ∃ document, Members.get? c.documents site.key = some document ∧
    document.declaration = site.declaration
  reading : ∀ d, c.Extends d → Reading d site value node

def Awaits (c : Compilation) (p : PendingRef) : Prop :=
  ∃ site value node, c.Built p.node site value node ∧ site.key = p.key ∧ node.ref = some p.ref

def Declares (c : Compilation) (key name : String) (id : NodeId) : Prop :=
  ∃ site value node, c.Built id site value node ∧ site.key = key ∧ name ∈ value.anchorNames

theorem Built.lt (h : c.Built id site value node) : id < c.nodes.size :=
  (Array.getElem?_eq_some_iff.mp h.placed).1

theorem Built.later (h : c.Built id site value node) (hd : c.Extends d)
    (hnode : d.nodes[id]? = c.nodes[id]?) : d.Built id site value node := by
  obtain ⟨document, hdocument, hdeclaration⟩ := h.declaration
  exact {
    placed := hnode.trans h.placed
    index := h.index
    nodeOf := hd.nodeOf h.nodeOf
    declaration := ⟨document, hd.documents _ _ hdocument, hdeclaration⟩
    reading := fun _ he => h.reading _ (hd.trans he) }

theorem Awaits.lt {p : PendingRef} (h : c.Awaits p) : p.node < c.nodes.size := by
  obtain ⟨_, _, _, hbuilt, -, -⟩ := h
  exact hbuilt.lt

theorem Awaits.later {p : PendingRef} (h : c.Awaits p) (hd : c.Extends d)
    (hnode : d.nodes[p.node]? = c.nodes[p.node]?) : d.Awaits p := by
  obtain ⟨site, value, node, hbuilt, hkey, href⟩ := h
  exact ⟨site, value, node, hbuilt.later hd hnode, hkey, href⟩

theorem Declares.lt {key name : String} (h : c.Declares key name id) : id < c.nodes.size := by
  obtain ⟨_, _, _, hbuilt, -, -⟩ := h
  exact hbuilt.lt

theorem Declares.later {key name : String} (h : c.Declares key name id) (hd : c.Extends d)
    (hnode : d.nodes[id]? = c.nodes[id]?) : d.Declares key name id := by
  obtain ⟨site, value, node, hbuilt, hkey, hname⟩ := h
  exact ⟨site, value, node, hbuilt.later hd hnode, hkey, hname⟩

theorem nodup_pending {before after : List PendingRef} {n : NodeId}
    (hbefore : (before.map (·.node)).Nodup) (hafter : (after.map (·.node)).Nodup)
    (hlt : ∀ p ∈ before, p.node < n) (hge : ∀ p ∈ after, n ≤ p.node) :
    ((before ++ after).map (·.node)).Nodup := by
  rw [List.map_append, List.nodup_append]
  refine ⟨hbefore, hafter, ?_⟩
  simp only [List.mem_map]
  rintro _ ⟨p, hp, rfl⟩ _ ⟨p', hp', rfl⟩
  exact Nat.ne_of_lt (Nat.lt_of_lt_of_le (hlt p hp) (hge p' hp'))

/-! ## Walks -/

/-- The site lies inside the value at a pointer of a document. -/
def Under (key pointer : String) (value : Json) (site : Site) : Prop :=
  site.key = key ∧ ∃ tokens inner, value.Leads tokens inner ∧
    site.pointer = Pointer.join pointer tokens

theorem Under.self (site : Site) : Under site.key site.pointer value site :=
  ⟨rfl, [], value, .root, (Pointer.join_nil _).symm⟩

theorem Under.inside {key pointer : String} {inner : Json} {tokens : List String}
    (hinner : value.Leads tokens inner)
    (h : Under key (Pointer.join pointer tokens) inner site) : Under key pointer value site := by
  obtain ⟨hkey, more, innermost, hmore, hpointer⟩ := h
  refine ⟨hkey, tokens ++ more, innermost, hinner.append hmore, ?_⟩
  rw [hpointer, Pointer.join_join]

/--
What a walk from `c` to `c'` did: every node that it started is finished, and stands at one of the
sites that the walk is about.
-/
structure Walk (sites : Site → Prop) (c c' : Compilation) : Prop where
  documents : c'.documents = c.documents
  aliases : c'.aliases = c.aliases
  targets : c'.targets = c.targets
  locations : c.locations.toList <+: c'.locations.toList
  nodes : ∀ id < c.nodes.size, c'.nodes[id]? = c.nodes[id]?
  aligned : c'.Aligned
  anchors : ∃ added, c'.anchors = added ++ c.anchors ∧
    ∀ entry ∈ added, c'.Declares entry.1.1 entry.1.2 entry.2
  pending : ∃ added, c'.pending = c.pending ++ added ∧ (added.map (·.node)).Nodup ∧
    ∀ p ∈ added, c.nodes.size ≤ p.node ∧ c'.Awaits p
  built : ∀ id, c.nodes.size ≤ id → id < c'.nodes.size →
    ∃ site value node, sites site ∧ c'.Built id site value node ∧
      (∀ ref ∈ node.ref, ⟨id, ref, site.key⟩ ∈ c'.pending) ∧
      ∀ name ∈ value.anchorNames, ((site.key, name), id) ∈ c'.anchors

theorem Walk.extends (h : Walk sites c c') : c.Extends c' := by
  refine ⟨?_, h.locations⟩
  rw [h.documents]
  exact fun _ _ hget => hget

theorem Walk.stands {key pointer : String} (h : Walk sites c c') (hc : c.Stands key pointer value) :
    c'.Stands key pointer value := h.extends.stands hc

theorem Walk.size_le (h : Walk sites c c') (hc : c.Aligned) : c.nodes.size ≤ c'.nodes.size := by
  rw [← hc.size, ← h.aligned.size, ← Array.length_toList, ← Array.length_toList]
  exact h.locations.length_le

theorem Walk.silent (hc : c.Aligned) (warnings : List String) (log : Log) :
    Walk sites c { c with warnings, log } where
  documents := rfl
  aliases := rfl
  targets := rfl
  locations := List.prefix_rfl
  nodes _ _ := rfl
  aligned := ⟨hc.size, hc.nodup⟩
  anchors := ⟨[], rfl, by simp⟩
  pending := ⟨[], (List.append_nil _).symm, List.nodup_nil, by simp⟩
  built _ hge hlt := absurd hlt (Nat.not_lt.mpr hge)

theorem Walk.refl (hc : c.Aligned) : Walk sites c c := Walk.silent hc c.warnings c.log

theorem Walk.mono {more : Site → Prop} (h : Walk sites c c')
    (hmore : ∀ site, sites site → more site) : Walk more c c' := by
  refine { h with built := fun id hge hlt => ?_ }
  obtain ⟨site, value, node, hsite, hbuilt⟩ := h.built id hge hlt
  exact ⟨site, value, node, hmore site hsite, hbuilt⟩

theorem Walk.trans (hc : c.Aligned) (h : Walk sites c c') (h' : Walk sites c' c'') :
    Walk sites c c'' where
  documents := h'.documents.trans h.documents
  aliases := h'.aliases.trans h.aliases
  targets := h'.targets.trans h.targets
  locations := h.locations.trans h'.locations
  nodes id hid := by
    rw [h'.nodes id (Nat.lt_of_lt_of_le hid (h.size_le hc)), h.nodes id hid]
  aligned := h'.aligned
  anchors := by
    obtain ⟨added, hanchors, hadded⟩ := h.anchors
    obtain ⟨added', hanchors', hadded'⟩ := h'.anchors
    refine ⟨added' ++ added, ?_, ?_⟩
    · rw [hanchors', hanchors, List.append_assoc]
    · intro entry hentry
      rcases List.mem_append.mp hentry with hentry | hentry
      · exact hadded' entry hentry
      · have hdeclares := hadded entry hentry
        exact hdeclares.later h'.extends (h'.nodes _ hdeclares.lt)
  pending := by
    obtain ⟨added, hpending, hnodup, hadded⟩ := h.pending
    obtain ⟨added', hpending', hnodup', hadded'⟩ := h'.pending
    refine ⟨added ++ added', ?_, ?_, ?_⟩
    · rw [hpending', hpending, List.append_assoc]
    · exact nodup_pending hnodup hnodup' (fun p hp => (hadded p hp).2.lt)
        fun p hp => (hadded' p hp).1
    · intro p hp
      rcases List.mem_append.mp hp with hp | hp
      · obtain ⟨hge, hawaits⟩ := hadded p hp
        exact ⟨hge, hawaits.later h'.extends (h'.nodes _ hawaits.lt)⟩
      · obtain ⟨hge, hawaits⟩ := hadded' p hp
        exact ⟨Nat.le_trans (h.size_le hc) hge, hawaits⟩
  built id hge hlt := by
    by_cases hid : id < c'.nodes.size
    · obtain ⟨site, value, node, hsite, hbuilt, href, hnames⟩ := h.built id hge hid
      obtain ⟨added', hpending', -, -⟩ := h'.pending
      obtain ⟨declared', hanchors', -⟩ := h'.anchors
      refine ⟨site, value, node, hsite, hbuilt.later h'.extends (h'.nodes id hid),
        fun ref hmem => ?_, fun name hmem => ?_⟩
      · rw [hpending']
        exact List.mem_append_left _ (href ref hmem)
      · rw [hanchors']
        exact List.mem_append_right _ (hnames name hmem)
    · exact h'.built id (Nat.not_lt.mp hid) hlt

/-! ## One more node -/

def reserved (c : Compilation) (location : String) : Compilation :=
  { c with nodes := c.nodes.push none, locations := c.locations.push location }

def started (c : Compilation) (location : String) (pending : List PendingRef)
    (anchors : List ((String × String) × NodeId)) : Compilation :=
  { c.reserved location with pending := c.pending ++ pending, anchors := anchors ++ c.anchors }

def placed (c : Compilation) (node : SchemaNode) : Compilation :=
  { c with nodes := c.nodes.set! node.id (some node) }

theorem extends_placed : c.Extends (c.placed node) := ⟨fun _ _ hget => hget, List.prefix_rfl⟩

theorem placed_self (h : node.id < c.nodes.size) :
    (c.placed node).nodes[node.id]? = some (some node) := by
  rw [placed, Array.set!_eq_setIfInBounds, Array.getElem?_setIfInBounds_self_of_lt h]

theorem placed_other (h : id ≠ node.id) : (c.placed node).nodes[id]? = c.nodes[id]? := by
  rw [placed, Array.set!_eq_setIfInBounds, Array.getElem?_setIfInBounds_ne h.symm]

theorem Built.ne_of_open {open_ : NodeId} (h : c.Built id site value node)
    (hopen : c.nodes[open_]? = some none) : id ≠ open_ := by
  rintro rfl
  have hplaced := h.placed
  rw [hopen] at hplaced
  cases hplaced

section

variable {location : String} {pending : List PendingRef}
  {anchors : List ((String × String) × NodeId)} {document : SourceDocument}

theorem started_size : (c.started location pending anchors).nodes.size = c.nodes.size + 1 :=
  Array.size_push ..

theorem started_aligned (hc : c.Aligned) (hnew : location ∉ c.locations.toList) :
    (c.started location pending anchors).Aligned := by
  constructor
  · rw [started_size, started, reserved, Array.size_push, hc.size]
  · rw [started, reserved, Array.toList_push, List.nodup_append]
    refine ⟨hc.nodup, List.pairwise_singleton _ location, ?_⟩
    rintro other hother _ hmem rfl
    exact hnew (List.mem_singleton.mp hmem ▸ hother)

/-! What a walk that begins behind the new index leaves of it. -/

theorem Walk.started_lt (hc : c.Aligned) (hnew : location ∉ c.locations.toList)
    (h : Walk sites (c.started location pending anchors) c') : c.nodes.size < c'.nodes.size := by
  have hle := h.size_le (started_aligned hc hnew)
  rwa [started_size] at hle

theorem Walk.started_old (h : Walk sites (c.started location pending anchors) c')
    (hid : id < c.nodes.size) : c'.nodes[id]? = c.nodes[id]? := by
  rw [h.nodes id (started_size (c := c) ▸ Nat.lt_succ_of_lt hid), started, reserved,
    Array.getElem?_push_lt hid, Array.getElem?_eq_getElem hid]

theorem Walk.started_open (h : Walk sites (c.started location pending anchors) c') :
    c'.nodes[c.nodes.size]? = some none := by
  rw [h.nodes _ (started_size (c := c) ▸ Nat.lt_succ_self _), started, reserved,
    Array.getElem?_push_size]

theorem Walk.started_located (hc : c.Aligned)
    (h : Walk sites (c.started site.location pending anchors) c') :
    c'.Located site.key site.pointer c.nodes.size := by
  refine h.extends.located ?_
  rw [Located, started, reserved, ← hc.size, Array.getElem?_push_size]
  rfl

theorem Walk.started_built (hc : c.Aligned) (hnew : site.location ∉ c.locations.toList)
    (hdocument : Members.get? c.documents site.key = some document)
    (hdeclaration : document.declaration = site.declaration)
    (hstands : c.Stands site.key site.pointer value) (hid : node.id = c.nodes.size)
    (h : Walk sites (c.started site.location pending anchors) c')
    (hreading : ∀ d, c'.Extends d → Reading d site value node) :
    (c'.placed node).Built c.nodes.size site value node where
  placed := hid ▸ placed_self (hid ▸ h.started_lt hc hnew)
  index := hid
  nodeOf := extends_placed.nodeOf ⟨h.started_located hc, h.extends.stands hstands⟩
  declaration := ⟨document, h.extends.documents _ _ hdocument, hdeclaration⟩
  reading d hd := hreading d (extends_placed.trans hd)

theorem Walk.enclose (hsite : sites site) (hid : node.id = c.nodes.size)
    (hanchors : ∀ entry ∈ anchors, entry.1.1 = site.key ∧ entry.1.2 ∈ value.anchorNames ∧
      entry.2 = c.nodes.size)
    (hnames : ∀ name ∈ value.anchorNames, ((site.key, name), c.nodes.size) ∈ anchors)
    (h : Walk sites (c.started site.location
      (node.ref.toList.map fun ref => ⟨c.nodes.size, ref, site.key⟩) anchors) c')
    (hself : (c'.placed node).Built c.nodes.size site value node) :
    Walk sites c (c'.placed node) where
  documents := h.documents
  aliases := h.aliases
  targets := h.targets
  locations := List.IsPrefix.trans (by simp [started, reserved]) h.locations
  nodes id hlt := (placed_other (hid ▸ Nat.ne_of_lt hlt)).trans (h.started_old hlt)
  aligned := ⟨by simpa [placed] using h.aligned.size, h.aligned.nodup⟩
  anchors := by
    obtain ⟨added, heq, hdeclared⟩ := h.anchors
    refine ⟨added ++ anchors, heq.trans (List.append_assoc ..).symm, ?_⟩
    intro entry hentry
    rcases List.mem_append.mp hentry with hentry | hentry
    -- The walk left the new index open, so no node that it finished stands there.
    · obtain ⟨site', value', node', hbuilt, hkey, hname⟩ := hdeclared entry hentry
      have hother := placed_other (c := c') (hid ▸ hbuilt.ne_of_open h.started_open)
      exact ⟨site', value', node', hbuilt.later extends_placed hother, hkey, hname⟩
    · obtain ⟨hkey, hname, hindex⟩ := hanchors entry hentry
      exact ⟨site, value, node, hindex ▸ hself, hkey.symm, hname⟩
  pending := by
    obtain ⟨added, hpending, hnodup, hadded⟩ := h.pending
    refine ⟨_, hpending.trans (List.append_assoc ..), ?_, ?_⟩
    · refine nodup_pending ?_ hnodup (n := c.nodes.size + 1) ?_ fun p hp => ?_
      · cases node.ref <;> simp
      · simp
      · exact started_size (c := c) ▸ (hadded p hp).1
    · intro p hp
      rcases List.mem_append.mp hp with hp | hp
      · obtain ⟨ref, href, rfl⟩ := List.mem_map.mp hp
        exact ⟨Nat.le_refl _, site, value, node, hself, rfl, Option.mem_toList.mp href⟩
      · obtain ⟨hge, hawaits⟩ := hadded p hp
        rw [started_size] at hge
        have hother := placed_other (c := c') (hid ▸ Nat.ne_of_gt hge)
        exact ⟨Nat.le_of_succ_le hge, hawaits.later extends_placed hother⟩
  built id hge hlt := by
    obtain ⟨added, hpending, -, -⟩ := h.pending
    obtain ⟨declared, hanchors', -⟩ := h.anchors
    rcases Nat.eq_or_lt_of_le hge with rfl | hgt
    · refine ⟨site, value, node, hsite, hself, fun ref href => ?_, fun name hname => ?_⟩
      · have hmem : (⟨c.nodes.size, ref, site.key⟩ : PendingRef) ∈ c'.pending := by
          rw [hpending, started]
          simp [Option.mem_def.mp href]
        exact hmem
      · have hmem : ((site.key, name), c.nodes.size) ∈ c'.anchors := by
          rw [hanchors', started]
          simp [hnames name hname]
        exact hmem
    · rw [placed, Array.size_set!] at hlt
      obtain ⟨site', value', node', hsite', hbuilt, href⟩ :=
        h.built id (started_size (c := c) ▸ hgt) hlt
      have hother := placed_other (c := c') (hid ▸ Nat.ne_of_gt hgt)
      exact ⟨site', value', node', hsite', hbuilt.later extends_placed hother, href⟩

end

end JsonSchema.Compilation

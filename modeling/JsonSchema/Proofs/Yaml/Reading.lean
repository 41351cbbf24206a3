import JsonSchema.Proofs.Yaml.Order

/-!
# Reading a collection

The values of nodes while the collections of a document are read, one after the other. A mapping is
merged when it is read, and then its entries give its members.
-/

namespace JsonSchema.Yaml

open Relation (TransGen ReflTransGen)

/-! ## Values -/

namespace Construction

variable {c c' : Construction} {id other : YamlId} {value : YamlValue}

def Extends (c c' : Construction) : Prop :=
  ∀ id value, c.value? id = some value → c'.value? id = some value

theorem Extends.refl (c : Construction) : Extends c c := fun _ _ h => h

theorem Extends.trans {c'' : Construction} (h : Extends c c') (h' : Extends c' c'') :
    Extends c c'' :=
  fun id value hvalue => h' id value (h id value hvalue)

theorem Extends.isSome (h : Extends c c') (hid : (c.value? id).isSome = true) :
    (c'.value? id).isSome = true := by
  obtain ⟨value, hvalue⟩ := Option.isSome_iff_exists.mp hid
  exact Option.isSome_iff_exists.mpr ⟨value, h id value hvalue⟩

theorem value?_setValue (h : id < c.values.size) :
    (c.setValue id value).value? other = if other = id then some value else c.value? other := by
  unfold value? setValue
  rw [Array.getElem?_setIfInBounds]
  by_cases heq : other = id
  · subst heq
    simp [h]
  · simp [heq, Ne.symm heq]

@[simp] theorem size_setValue : (c.setValue id value).values.size = c.values.size :=
  Array.size_setIfInBounds

theorem Extends.setValue (h : id < c.values.size) (hnone : c.value? id = none)
    {unread : List Unread} : Extends c { c.setValue id value with unread } := by
  intro other old hold
  refine (value?_setValue h).trans ?_
  rw [if_neg, hold]
  rintro rfl
  rw [hnone] at hold
  cases hold

end Construction

open Construction (Extends value?_setValue size_setValue textOf)

variable {G : YamlGraph} {root id : YamlId} {read known ids : List YamlId}
  {done : YamlId → Prop} {waiting : List Unread} {c c' : Construction}

/--
The values while collections are read. Those in `read` are behind, those in `waiting` are next, and
the values that are there are the nodes that were met.
-/
structure Reads (G : YamlGraph) (done : YamlId → Prop) (read known : List YamlId)
    (waiting : List Unread) (c : Construction) : Prop where
  graph : G.Partly done (fun _ => False) c.graph
  size : c.values.size = G.nodes.size
  fits : ∀ id ∈ known, G.fits id = true
  kind : ∀ id ∈ known, (G.node id).kind ≠ .scalar
  nodup : known.Nodup
  order : known = read ++ (waiting ++ c.unread.reverse).map (·.id)
  tags : ∀ u ∈ waiting ++ c.unread, KnownTag.ofText? (G.node u.id).tag = some (.collection u.tag)
  scalar : ∀ id value, (G.node id).kind = .scalar → c.value? id = some value →
    ∃ found, (G.node id).plain.scalar? = some found ∧ value = .scalar found
  known : ∀ id, (G.node id).kind ≠ .scalar → ((c.value? id).isSome = true ↔ id ∈ known)

structure Visits (G : YamlGraph) (done : YamlId → Prop) (read known : List YamlId)
    (waiting : List Unread) (c : Construction) (ids : List YamlId) (c' : Construction) : Prop where
  reads : Reads G done read (ids.foldl G.meet known) waiting c'
  graph : c'.graph = c.graph
  extend : Extends c c'
  values : ∀ id ∈ ids, (c'.value? id).isSome = true

namespace Visits

theorem nil (h : Reads G done read known waiting c) : Visits G done read known waiting c [] c :=
  ⟨h, rfl, .refl c, nofun⟩

theorem append {more : List YamlId} {c'' : Construction}
    (h : Visits G done read known waiting c ids c')
    (h' : Visits G done read (ids.foldl G.meet known) waiting c' more c'') :
    Visits G done read known waiting c (ids ++ more) c'' where
  reads := by
    rw [List.foldl_append]
    exact h'.reads
  graph := h'.graph.trans h.graph
  extend := h.extend.trans h'.extend
  values := List.forall_mem_append.mpr
    ⟨fun id hid => h'.extend.isSome (h.values id hid), h'.values⟩

end Visits

namespace Reads

open YamlGraph

theorem requeue {read' : List YamlId} {waiting' : List Unread}
    (h : Reads G done read known waiting c) (hgraph : c'.graph = c.graph)
    (hvalues : c'.values = c.values)
    (horder : known = read' ++ (waiting' ++ c'.unread.reverse).map (·.id))
    (htags : ∀ u ∈ waiting' ++ c'.unread, u ∈ waiting ++ c.unread) :
    Reads G done read' known waiting' c' := by
  have hvalue : ∀ id, c'.value? id = c.value? id := fun id => by
    rw [Construction.value?, hvalues]
    rfl
  constructor
  case graph => exact hgraph ▸ h.graph
  case size => exact hvalues ▸ h.size
  case fits => exact h.fits
  case kind => exact h.kind
  case nodup => exact h.nodup
  case order => exact horder
  case tags => exact fun u hu => h.tags u (htags u hu)
  case scalar => exact fun id value hkind hold => h.scalar id value hkind (hvalue id ▸ hold)
  case known => exact fun id hkind => hvalue id ▸ h.known id hkind

theorem setScalar (h : Reads G done read known waiting c) {value : ScalarValue}
    (hvalue : (G.node id).plain.scalar? = some value) :
    Reads G done read known waiting (c.setValue id (.scalar value)) where
  graph := h.graph
  size := size_setValue.trans h.size
  fits := h.fits
  kind := h.kind
  nodup := h.nodup
  order := h.order
  tags := h.tags
  scalar other old hkind hold := by
    rw [value?_setValue (h.size ▸ lt_of_scalar? hvalue)] at hold
    split at hold
    case isTrue heq => exact ⟨value, heq ▸ hvalue, (Option.some.inj hold).symm⟩
    case isFalse => exact h.scalar other old hkind hold
  known other hkind := by
    rw [value?_setValue (h.size ▸ lt_of_scalar? hvalue), if_neg, h.known other hkind]
    rintro rfl
    exact hkind (kind_of_scalar? hvalue)

theorem setCollection (h : Reads G done read known waiting c) {tag : CollectionTag}
    (hid : G.fits id = true) (hkind : (G.node id).kind ≠ .scalar) (hnew : id ∉ known)
    (htag : KnownTag.ofText? (G.node id).tag = some (.collection tag)) :
    Reads G done read (known ++ [id]) waiting
      { c.setValue id tag.emptyValue with unread := ⟨id, tag⟩ :: c.unread } where
  graph := h.graph
  size := size_setValue.trans h.size
  fits := List.forall_mem_append.mpr ⟨h.fits, by simpa using hid⟩
  kind := List.forall_mem_append.mpr ⟨h.kind, by simpa using hkind⟩
  nodup := List.nodup_append.mpr ⟨h.nodup, List.nodup_singleton id,
    fun other hother last hlast heq => hnew (List.mem_singleton.mp hlast ▸ heq ▸ hother)⟩
  order := by simp [h.order]
  tags u hu := by
    rw [List.mem_append, List.mem_cons] at hu
    rcases hu with hu | rfl | hu
    · exact h.tags u (List.mem_append_left _ hu)
    · exact htag
    · exact h.tags u (List.mem_append_right _ hu)
  scalar other old hscalar hold := by
    refine h.scalar other old hscalar ?_
    rwa [← (value?_setValue (h.size ▸ lt_of_fits hid)).trans (if_neg ?_)]
    rintro rfl
    exact hkind hscalar
  known other hother := by
    rw [List.mem_append, List.mem_singleton, ← h.known other hother]
    refine (congrArg (Option.isSome · = true)
      (value?_setValue (h.size ▸ lt_of_fits hid))).to_iff.trans ?_
    split <;> simp [*]

theorem scalarValue (h : Reads G done read known waiting c) {value : ScalarValue}
    (hvalue : (G.node id).plain.scalar? = some value) (htag : (c.graph.node id).tag ≠ Tag.value) :
    ∃ c', c.valueOf id = .ok (.scalar value, c') ∧
      Visits G done read known waiting c [id] c' := by
  have hkind := kind_of_scalar? hvalue
  have hmeet : [id].foldl G.meet known = known := meet_scalar hkind
  unfold Construction.valueOf
  cases hold : c.value? id with
  | some old =>
    obtain ⟨found, hfound, rfl⟩ := h.scalar id old hkind hold
    rw [hvalue] at hfound
    obtain rfl := Option.some.inj hfound
    refine ⟨c, rfl, hmeet.symm ▸ h, rfl, .refl c, ?_⟩
    simp [hold]
  | none =>
    obtain ⟨text, tag, hcontent, hknown, hread⟩ := scalar?_eq_some hvalue
    have hnode : (G.node id).plain.tag = (c.graph.node id).tag := by
      rw [YamlNode.plain_tag]
      rcases h.graph.tag id with heq | ⟨hgiven, hstr⟩
      · rw [if_neg (heq ▸ htag), heq]
      · rw [if_pos hgiven, hstr]
    have hdone : ¬ done id := fun hdone => by
      simp [h.graph.mapping id (.inr hdone)] at hkind
    have hlt : id < c.values.size := h.size ▸ lt_of_scalar? hvalue
    rw [YamlNode.plain_content, ← h.graph.content id not_false hdone] at hcontent
    rw [hnode] at hknown
    rw [YamlNode.plain_place, ← h.graph.place] at hread
    refine ⟨c.setValue id (.scalar value), ?_, ?_, rfl, ?_, ?_⟩
    · simp [hknown, textOf, hcontent, hread, bind, Except.bind, pure, Except.pure]
    · exact hmeet.symm ▸ h.setScalar hvalue
    · exact Extends.setValue hlt hold
    · simp [value?_setValue hlt]

theorem nodeValue (h : Reads G done read known waiting c) (hid : G.fits id = true) :
    ∃ value c', c.valueOf id = .ok (value, c') ∧ Visits G done read known waiting c [id] c' := by
  by_cases hkind : (G.node id).kind = .scalar
  · obtain ⟨value, -, hvalue, -, htag⟩ := scalar_of_fits hid hkind
    obtain ⟨c', heq, hvisits⟩ := h.scalarValue hvalue
      ((h.graph.tag id).elim (fun heq => heq ▸ htag) fun hgiven => absurd hgiven.1 htag)
    exact ⟨_, c', heq, hvisits⟩
  obtain ⟨tag, htag⟩ := collection_of_fits hid hkind
  unfold Construction.valueOf
  cases hold : c.value? id with
  | some value =>
    have hmem : id ∈ known := (h.known id hkind).mp (by simp [hold])
    have hmeet : [id].foldl G.meet known = known := meet_known hmem
    refine ⟨value, c, rfl, hmeet.symm ▸ h, rfl, .refl c, ?_⟩
    simp [hold]
  | none =>
    have hnew : id ∉ known := fun hmem => by
      have hsome := (h.known id hkind).mpr hmem
      rw [hold] at hsome
      cases hsome
    have hmeet : [id].foldl G.meet known = known ++ [id] := if_neg (not_or.mpr ⟨hkind, hnew⟩)
    have hsame : (c.graph.node id).tag = (G.node id).tag := by
      rcases h.graph.tag id with heq | ⟨hgiven, -⟩
      · exact heq
      · rw [hgiven, tag_value_unknown] at htag
        cases htag
    have hlt : id < c.values.size := h.size ▸ lt_of_fits hid
    refine ⟨tag.emptyValue, { c.setValue id tag.emptyValue with unread := ⟨id, tag⟩ :: c.unread },
      ?_, hmeet.symm ▸ h.setCollection hid hkind hnew htag, rfl, Extends.setValue hlt hold, ?_⟩
    · simp [hsame, htag]
    · intro other hother
      rw [List.mem_singleton.mp hother]
      exact congrArg Option.isSome ((value?_setValue hlt).trans (if_pos rfl))

theorem visit (h : Reads G done read known waiting c) (hids : ∀ id ∈ ids, G.fits id = true) :
    ∃ c', c.visit ids = .ok c' ∧ Visits G done read known waiting c ids c' := by
  induction ids generalizing known c with
  | nil => exact ⟨c, rfl, .nil h⟩
  | cons id rest ih =>
    rw [List.forall_mem_cons] at hids
    obtain ⟨value, c₁, heq₁, hfirst⟩ := h.nodeValue hids.1
    obtain ⟨c₂, heq₂, hrest⟩ := ih hfirst.reads hids.2
    refine ⟨c₂, ?_, hfirst.append hrest⟩
    unfold Construction.visit at heq₂ ⊢
    rw [List.foldlM_cons, heq₁]
    exact heq₂

end Reads

/-! ## Entries -/

open Construction (readEntry)

def YamlGraph.nodesOf (entries : List Entry) : List YamlId :=
  entries.flatMap fun entry => [entry.1, entry.2]

/-- The keys of the entries name members, in the graph `g` too, and the values fit. -/
def YamlGraph.Readable (G g : YamlGraph) (entries : List Entry) : Prop :=
  ∀ entry ∈ entries, (G.keyName? entry.1).isSome = true ∧ G.fits entry.2 = true ∧
    (g.node entry.1).tag ≠ Tag.value

structure ReadsOn (G : YamlGraph) (done : YamlId → Prop) (read known : List YamlId)
    (waiting : List Unread) (r : Construction.Reading) (entries : List Entry)
    (r' : Construction.Reading) : Prop where
  visits : Visits G done read known waiting r.construction (YamlGraph.nodesOf entries)
    r'.construction
  members : r'.members = entries.foldl G.putEntry r.members

section

open YamlGraph (nodesOf Readable)

variable {r r' : Construction.Reading} {entry : Entry} {entries : List Entry} {name : String}

theorem ReadsOn.nil (h : Reads G done read known waiting r.construction) :
    ReadsOn G done read known waiting r [] r := ⟨.nil h, rfl⟩

theorem ReadsOn.append {more : List Entry} {r'' : Construction.Reading}
    (h : ReadsOn G done read known waiting r entries r')
    (h' : ReadsOn G done read ((nodesOf entries).foldl G.meet known) waiting r' more r'') :
    ReadsOn G done read known waiting r (entries ++ more) r'' where
  visits := by
    rw [nodesOf, List.flatMap_append]
    exact h.visits.append h'.visits
  members := by rw [List.foldl_append, h'.members, h.members]

theorem YamlGraph.Readable.rest {g : YamlGraph} (h : Readable G g (entry :: entries))
    (hread : ReadsOn G done read known waiting r [entry] r') (hgraph : r.construction.graph = g) :
    Readable G r'.construction.graph entries := by
  rw [hread.visits.graph, hgraph]
  exact (List.forall_mem_cons.mp h).2

theorem readEntry_ok (merged : Bool) (h : Reads G done read known waiting r.construction)
    (hentry : Readable G r.construction.graph [entry]) (hname : G.keyName? entry.1 = some name)
    (hfree : merged = false → name ∉ r.fixed) :
    ∃ r', readEntry r entry merged = .ok r' ∧ ReadsOn G done read known waiting r [entry] r' ∧
      r'.fixed = if merged then r.fixed else name :: r.fixed := by
  obtain ⟨-, hfits, htag⟩ := hentry entry (List.mem_singleton_self entry)
  obtain ⟨key, hkey, hkeyName⟩ := Option.bind_eq_some_iff.mp hname
  have hnameOf : Construction.nameOf (.scalar key) = .ok name := Except.toOption_eq_some.mp hkeyName
  obtain ⟨c₁, heq₁, hkeyVisits⟩ := h.scalarValue hkey htag
  obtain ⟨value, c₂, heq₂, hvalueVisits⟩ := hkeyVisits.reads.nodeValue hfits
  refine ⟨⟨c₂, r.members.put name entry.2, if merged then r.fixed else name :: r.fixed⟩,
    ?_, ⟨hkeyVisits.append hvalueVisits, ?_⟩, rfl⟩
  · unfold readEntry
    simpa [heq₁, hnameOf, heq₂, bind, Except.bind, pure, Except.pure] using hfree
  · simp [YamlGraph.putEntry, hname]

theorem readEntry_repeats (h : Reads G done read known waiting r.construction)
    (hentry : Readable G r.construction.graph [entry]) (hname : G.keyName? entry.1 = some name)
    (hmem : name ∈ r.fixed) :
    ∃ place, readEntry r entry false = .error (.here place (.duplicateKey name)) := by
  obtain ⟨-, -, htag⟩ := hentry entry (List.mem_singleton_self entry)
  obtain ⟨key, hkey, hkeyName⟩ := Option.bind_eq_some_iff.mp hname
  have hnameOf : Construction.nameOf (.scalar key) = .ok name := Except.toOption_eq_some.mp hkeyName
  obtain ⟨c₁, heq₁, -⟩ := h.scalarValue hkey htag
  refine ⟨(r.construction.graph.node entry.1).place, ?_⟩
  unfold readEntry
  simp [heq₁, hnameOf, hmem, bind, Except.bind, throw, throwThe, MonadExceptOf.throw]

theorem readMerged (h : Reads G done read known waiting r.construction)
    (hentries : Readable G r.construction.graph entries) :
    ∃ r', entries.foldlM (readEntry · · true) r = .ok r' ∧
      ReadsOn G done read known waiting r entries r' ∧ r'.fixed = r.fixed := by
  induction entries generalizing known r with
  | nil => exact ⟨r, rfl, .nil h, rfl⟩
  | cons entry rest ih =>
    have hfirst := List.forall_mem_cons.mp hentries
    obtain ⟨name, hname⟩ := Option.isSome_iff_exists.mp hfirst.1.1
    obtain ⟨r₁, heq₁, h₁, hfixed₁⟩ :=
      readEntry_ok true h (List.forall_mem_singleton.mpr hfirst.1) hname nofun
    obtain ⟨r₂, heq₂, h₂, hfixed₂⟩ := ih h₁.visits.reads (hentries.rest h₁ rfl)
    refine ⟨r₂, ?_, h₁.append h₂, hfixed₂.trans hfixed₁⟩
    rw [List.foldlM_cons, heq₁]
    exact heq₂

theorem nodup_names_cons (hname : G.keyName? entry.1 = some name) :
    (G.names (entry :: entries) ++ r.fixed).Nodup ↔
      (G.names entries ++ name :: r.fixed).Nodup := by
  have hcons : G.names (entry :: entries) = name :: G.names entries := by
    simp [YamlGraph.names, hname]
  rw [hcons, List.cons_append]
  exact List.perm_middle.nodup_iff.symm

theorem readOwn (h : Reads G done read known waiting r.construction)
    (hentries : Readable G r.construction.graph entries)
    (hnodup : (G.names entries ++ r.fixed).Nodup) :
    ∃ r', entries.foldlM (readEntry · · false) r = .ok r' ∧
      ReadsOn G done read known waiting r entries r' := by
  induction entries generalizing known r with
  | nil => exact ⟨r, rfl, .nil h⟩
  | cons entry rest ih =>
    have hfirst := List.forall_mem_cons.mp hentries
    obtain ⟨name, hname⟩ := Option.isSome_iff_exists.mp hfirst.1.1
    rw [nodup_names_cons hname] at hnodup
    have hnew : name ∉ r.fixed :=
      (List.nodup_cons.mp (List.nodup_append.mp hnodup).2.1).1
    obtain ⟨r₁, heq₁, h₁, hfixed₁⟩ :=
      readEntry_ok false h (List.forall_mem_singleton.mpr hfirst.1) hname fun _ => hnew
    replace hfixed₁ : r₁.fixed = name :: r.fixed := hfixed₁
    obtain ⟨r₂, heq₂, h₂⟩ := ih h₁.visits.reads (hentries.rest h₁ rfl) (hfixed₁ ▸ hnodup)
    refine ⟨r₂, ?_, h₁.append h₂⟩
    rw [List.foldlM_cons, heq₁]
    exact heq₂

theorem readOwn_repeats (h : Reads G done read known waiting r.construction)
    (hentries : Readable G r.construction.graph entries) (hfixed : r.fixed.Nodup)
    (hrepeats : ¬ (G.names entries ++ r.fixed).Nodup) :
    ∃ place name, entries.foldlM (readEntry · · false) r =
      .error (.here place (.duplicateKey name)) := by
  induction entries generalizing known r with
  | nil => exact absurd hfixed hrepeats
  | cons entry rest ih =>
    have hfirst := List.forall_mem_cons.mp hentries
    obtain ⟨name, hname⟩ := Option.isSome_iff_exists.mp hfirst.1.1
    rw [nodup_names_cons hname] at hrepeats
    have hentry : Readable G r.construction.graph [entry] :=
      List.forall_mem_singleton.mpr hfirst.1
    by_cases hmem : name ∈ r.fixed
    · obtain ⟨place, heq⟩ := readEntry_repeats h hentry hname hmem
      exact ⟨place, name, by rw [List.foldlM_cons, heq]; rfl⟩
    · obtain ⟨r₁, heq₁, h₁, hfixed₁⟩ := readEntry_ok false h hentry hname fun _ => hmem
      replace hfixed₁ : r₁.fixed = name :: r.fixed := hfixed₁
      obtain ⟨place, again, heq⟩ := ih h₁.visits.reads (hentries.rest h₁ rfl)
        (hfixed₁ ▸ List.nodup_cons.mpr ⟨hmem, hfixed⟩) (hfixed₁ ▸ hrepeats)
      exact ⟨place, again, by rw [List.foldlM_cons, heq₁]; exact heq⟩

end

/-! ## Mappings -/

namespace YamlGraph

variable {g : YamlGraph}

/-- The entries whose names may not come again: those behind the ones that merging brings in. -/
theorem exists_checked (hg : G.Regular root) (h : Partly G done (fun _ => False) g) (id : YamlId) :
    ∃ merged checked, G.expanded id = merged ++ checked ∧
      ((g.entries id).filter (!g.isMergeKey ·)).length = checked.length ∧
      (checked = G.own id ∧ ¬ done id ∨ checked = G.expanded id ∧ done id) := by
  have hfilter : ∀ entries : List Entry,
      entries.filter (!g.isMergeKey ·) = entries.filter (!G.isMergeKey ·) := fun entries =>
    List.filter_congr fun entry _ => by rw [h.isMergeKey]
  by_cases hdone : done id
  · refine ⟨[], G.expanded id, rfl, ?_, .inr ⟨rfl, hdone⟩⟩
    rw [h.entries_done not_false hdone, hfilter,
      (filter_others fun _ => isMergeKey_expanded hg).1]
  · refine ⟨_, G.own id, expanded_eq hg id, ?_, .inl ⟨rfl, hdone⟩⟩
    rw [h.entries not_false hdone, hfilter]
    rfl

theorem readable_expanded (hg : G.Regular root) (h : Partly G done (fun _ => False) g)
    (hid : done id) : Readable G g (G.expanded id) := by
  intro entry hentry
  obtain ⟨source, hreach, hown⟩ := mem_expanded hg hentry
  exact ⟨named_of_expanded hg hentry, fits_of_expanded hg hentry,
    h.plain source (h.reached hid hreach) entry hown⟩

theorem nodup_own (hg : G.Regular root) (h : (G.names (G.expanded id)).Nodup) :
    (G.names (G.own id)).Nodup := by
  rw [expanded_eq hg, names, List.map_append] at h
  exact (List.nodup_append.mp h).2.1

end YamlGraph

section

open YamlGraph (nodesOf Readable)

variable {r : Construction.Reading}

theorem foldlM_index {entries : List Entry} {merged : Bool} (bound start : Nat)
    (h : ∀ index < entries.length, decide (start + index < bound) = merged) :
    (entries.zipIdx start).foldlM
      (fun r x => readEntry r x.1 (decide (x.2 < bound))) r =
      entries.foldlM (readEntry · · merged) r := by
  induction entries generalizing start r with
  | nil => rfl
  | cons entry rest ih =>
    rw [List.zipIdx_cons, List.foldlM_cons, List.foldlM_cons]
    have hfirst := h 0 (Nat.zero_lt_succ _)
    rw [Nat.add_zero] at hfirst
    simp only [hfirst]
    refine congrArg _ (funext fun r => ih (start + 1) fun index hindex => ?_)
    rw [← h (index + 1) (Nat.succ_lt_succ hindex), Nat.add_assoc, Nat.add_comm 1]

theorem foldlM_zipIdx (merged checked : List Entry) :
    (merged ++ checked).zipIdx.foldlM
      (fun r x => readEntry r x.1 (decide (x.2 < merged.length))) r =
      merged.foldlM (readEntry · · true) r >>= fun r => checked.foldlM (readEntry · · false) r := by
  rw [List.zipIdx_append, List.foldlM_append, foldlM_index _ 0 fun index hindex => ?_]
  · refine congrArg _ (funext fun r => foldlM_index _ _ fun index _ => ?_)
    simp
  · simpa using hindex

/-- If `id` is a mapping, it is merged from now on, and so is whatever is merged into it. -/
def orMerged (G : YamlGraph) (done : YamlId → Prop) (id other : YamlId) : Prop :=
  done other ∨ (G.node id).kind = .mapping ∧ ReflTransGen G.Merges id other

theorem Reads.setGraph {done' : YamlId → Prop} {g : YamlGraph}
    (h : Reads G done read known waiting c) (hg : G.Partly done' (fun _ => False) g) :
    Reads G done' read known waiting { c with graph := g } :=
  ⟨hg, h.size, h.fits, h.kind, h.nodup, h.order, h.tags, h.scalar, h.known⟩

/-- A mapping is read once it is merged; what merging brought in is read in any case. -/
theorem membersOf_eq (hg : G.Regular root) (h : Reads G done read known waiting c)
    (hid : (G.node id).kind = .mapping) :
    ∃ g merged checked r, G.expanded id = merged ++ checked ∧
      (checked = G.own id ∧ ¬ done id ∨ checked = G.expanded id ∧ done id) ∧
      ReadsOn G (orMerged G done id) read known waiting ⟨{ c with graph := g }, [], []⟩ merged r ∧
      r.fixed = [] ∧ Readable G r.construction.graph checked ∧
      c.membersOf id = do
        let r ← checked.foldlM (readEntry · · false) r
        return (r.members, r.construction) := by
  obtain ⟨g, hmerge, hpartly, -⟩ := YamlGraph.mergeKeys_merges hg h.graph hid
  obtain ⟨merged, checked, hexpanded, hcount, hchecked⟩ :=
    YamlGraph.exists_checked hg h.graph id
  have hentries : g.entries id = merged ++ checked := by
    rw [hpartly.entries_done not_false (.inr .refl), hexpanded]
  have hreadable := YamlGraph.readable_expanded hg hpartly (.inr .refl)
  rw [hexpanded, Readable, List.forall_mem_append] at hreadable
  replace hpartly : G.Partly (orMerged G done id) (fun _ => False) g :=
    hpartly.congr fun other => or_congr_right (and_iff_right hid).symm
  obtain ⟨r, heq, hr, hfixed⟩ :=
    readMerged (r := ⟨{ c with graph := g }, [], []⟩) (h.setGraph hpartly) hreadable.1
  refine ⟨g, merged, checked, r, hexpanded, hchecked, hr, hfixed,
    hr.visits.graph ▸ hreadable.2, ?_⟩
  have hkind : ((c.graph.node id).kind != .mapping) = false := by simp [h.graph.kind, hid]
  have hlength : (merged ++ checked).length - checked.length = merged.length := by simp
  unfold Construction.membersOf
  simp only [hkind, hmerge, hcount, Bool.false_eq_true, if_false, Except.ok_bind, hentries, hlength,
    foldlM_zipIdx, heq]

theorem membersOf_ok (hg : G.Regular root) (h : Reads G done read known waiting c)
    (hid : (G.node id).kind = .mapping) (hown : (G.names (G.own id)).Nodup)
    (hexpanded : done id → (G.names (G.expanded id)).Nodup) :
    ∃ c', c.membersOf id = .ok (G.members id, c') ∧
      Reads G (orMerged G done id) read ((nodesOf (G.expanded id)).foldl G.meet known) waiting c' ∧
      Extends c c' ∧ ∀ other ∈ nodesOf (G.expanded id), (c'.value? other).isSome = true := by
  obtain ⟨g, merged, checked, r, heq, hchecked, hr, hfixed, hreadable, hmembers⟩ :=
    membersOf_eq hg h hid
  have hnodup : (G.names checked ++ r.fixed).Nodup := by
    rw [hfixed, List.append_nil]
    rcases hchecked with ⟨rfl, -⟩ | ⟨rfl, hdone⟩
    · exact hown
    · exact hexpanded hdone
  obtain ⟨r', heq', hr'⟩ := readOwn hr.visits.reads hreadable hnodup
  have hall := heq ▸ hr.append hr'
  refine ⟨r'.construction, ?_, hall.visits.reads, hall.visits.extend, hall.visits.values⟩
  rw [hmembers, heq']
  simp [hall.members, YamlGraph.members, bind, Except.bind, pure, Except.pure]

theorem membersOf_repeats (hg : G.Regular root) (h : Reads G done read known waiting c)
    (hid : (G.node id).kind = .mapping)
    (hrepeats : ¬ (G.names (G.own id)).Nodup ∨ done id ∧ ¬ (G.names (G.expanded id)).Nodup) :
    ∃ place name, c.membersOf id = .error (.here place (.duplicateKey name)) := by
  obtain ⟨g, merged, checked, r, heq, hchecked, hr, hfixed, hreadable, hmembers⟩ :=
    membersOf_eq hg h hid
  have hnodup : ¬ (G.names checked ++ r.fixed).Nodup := by
    rw [hfixed, List.append_nil]
    rcases hchecked with ⟨rfl, hdone⟩ | ⟨rfl, -⟩
    · exact hrepeats.resolve_right fun h => hdone h.1
    · exact hrepeats.elim (mt (YamlGraph.nodup_own hg)) And.right
  obtain ⟨place, name, hfault⟩ :=
    readOwn_repeats hr.visits.reads hreadable (hfixed ▸ List.nodup_nil) hnodup
  refine ⟨place, name, ?_⟩
  rw [hmembers, hfault]
  rfl

end

/-! ## Collections -/

structure ContentRead (G : YamlGraph) (c : Construction) (id : YamlId) (c' : Construction) :
    Prop where
  value : c'.value? id = some (G.valueAt id)
  others : ∀ other value, other ≠ id → c.value? other = some value → c'.value? other = some value
  children : ∀ child ∈ G.children id, (c'.value? child).isSome = true

theorem Reads.setFinal (h : Reads G done read known waiting c) (hid : id ∈ known)
    (value : YamlValue) : Reads G done read known waiting (c.setValue id value) where
  graph := h.graph
  size := size_setValue.trans h.size
  fits := h.fits
  kind := h.kind
  nodup := h.nodup
  order := h.order
  tags := h.tags
  scalar other old hkind hold := by
    refine h.scalar other old hkind ?_
    rwa [← (value?_setValue (h.size ▸ YamlGraph.lt_of_fits (h.fits id hid))).trans (if_neg ?_)]
    rintro rfl
    exact h.kind other hid hkind
  known other hkind := by
    rw [value?_setValue (h.size ▸ YamlGraph.lt_of_fits (h.fits id hid))]
    split
    case isTrue heq => simp [heq, hid]
    case isFalse => exact h.known other hkind

theorem Reads.contentRead (h : Reads G done read known waiting c') (hid : id ∈ known)
    (hextends : Extends c c')
    (hchildren : ∀ child ∈ G.children id, (c'.value? child).isSome = true) :
    ContentRead G c id (c'.setValue id (G.valueAt id)) := by
  have hlt : id < c'.values.size := h.size ▸ YamlGraph.lt_of_fits (h.fits id hid)
  constructor
  · rw [value?_setValue hlt, if_pos rfl]
  · intro other value hne hvalue
    rw [value?_setValue hlt, if_neg hne, hextends other value hvalue]
  · intro child hchild
    rw [value?_setValue hlt]
    split
    · rfl
    · exact hchildren child hchild

theorem YamlGraph.children_sequence {items : List YamlId}
    (h : (G.node id).content = .sequence items) : G.children id = items := by
  rw [children, h]

theorem YamlGraph.children_mapping (h : (G.node id).kind = .mapping) :
    G.children id = nodesOf (G.expanded id) := by
  rw [children, entries_eq h]
  rfl

theorem YamlGraph.valueAt_mapping (h : (G.node id).kind = .mapping) :
    G.valueAt id = .mapping (G.members id) := by
  rw [valueAt, entries_eq h]

theorem Reads.congr {done' : YamlId → Prop} (h : Reads G done read known waiting c)
    (heq : ∀ id, done id ↔ done' id) : Reads G done' read known waiting c :=
  h.setGraph (h.graph.congr heq)

theorem readSequence (hg : G.Regular root) (h : Reads G done read known waiting c) {u : Unread}
    (hu : u.id ∈ known) (htag : KnownTag.ofText? (G.node u.id).tag = some (.collection u.tag))
    {items : List YamlId} (hcontent : (G.node u.id).content = .sequence items) :
    ∃ c', c.readContent u = .ok c' ∧
      Reads G done read ((G.children u.id).foldl G.meet known) waiting c' ∧
      ContentRead G c u.id c' := by
  have hkind : (G.node u.id).kind = .sequence := congrArg Content.kind hcontent
  have hdone : ¬ done u.id := fun hdone => by
    simp [h.graph.mapping u.id (.inr hdone)] at hkind
  have hitems : ∀ item ∈ items, G.fits item = true := fun item hitem => by
    refine hg.items u.id item ?_
    rwa [YamlGraph.items, hcontent]
  have hsame : ∀ what, c.itemsOf u.id what = .ok items := fun what => by
    unfold Construction.itemsOf
    dsimp only
    rw [h.graph.content u.id not_false hdone, hcontent]
  obtain ⟨c', heq, hvisits⟩ := h.visit hitems
  have hchildren := YamlGraph.children_sequence hcontent
  have hmem : u.id ∈ items.foldl G.meet known := YamlGraph.prefix_foldl_meet.subset hu
  refine ⟨c'.setValue u.id (G.valueAt u.id), ?_, ?_, ?_⟩
  · have hfits := h.fits u.id hu
    simp only [YamlGraph.fits, hcontent, htag, Bool.or_eq_true, Bool.and_eq_true, beq_iff_eq,
      Option.some.injEq, KnownTag.collection.injEq] at hfits
    rw [YamlGraph.valueAt, hcontent, htag]
    unfold Construction.readContent
    rcases hfits with hsequence | ⟨hpairs, hempty⟩
    · simp [hsequence, hsame, heq, bind, Except.bind, pure, Except.pure]
    · obtain rfl := List.isEmpty_iff.mp hempty
      cases heq
      simp [hpairs, hsame, bind, Except.bind, pure, Except.pure]
  · rw [hchildren]
    exact hvisits.reads.setFinal hmem _
  · exact hvisits.reads.contentRead hmem hvisits.extend (hchildren ▸ hvisits.values)

theorem readMapping (hg : G.Regular root) (h : Reads G done read known waiting c) {u : Unread}
    (hu : u.id ∈ known) (htag : u.tag = .mapping) (hkind : (G.node u.id).kind = .mapping)
    (hown : (G.names (G.own u.id)).Nodup)
    (hexpanded : done u.id → (G.names (G.expanded u.id)).Nodup) :
    ∃ c', c.readContent u = .ok c' ∧
      Reads G (orMerged G done u.id) read ((G.children u.id).foldl G.meet known) waiting c' ∧
      ContentRead G c u.id c' := by
  obtain ⟨c', heq, hreads, hextends, hvalues⟩ := membersOf_ok hg h hkind hown hexpanded
  rw [← YamlGraph.children_mapping hkind] at hreads hvalues
  have hmem : u.id ∈ (G.children u.id).foldl G.meet known :=
    YamlGraph.prefix_foldl_meet.subset hu
  refine ⟨c'.setValue u.id (G.valueAt u.id), ?_, hreads.setFinal hmem _,
    hreads.contentRead hmem hextends hvalues⟩
  unfold Construction.readContent
  rw [htag, YamlGraph.valueAt_mapping hkind]
  simp only [heq, Except.ok_bind]
  rfl

end JsonSchema.Yaml

import JsonSchema.Proofs.Yaml.Places
import JsonSchema.Proofs.Yaml.Rounds

/-!
# Documents without merge keys

The nodes of a document whose tags are the usual ones are read as they are: once the values of a
document are complete, each of them has been read from the content of its node.
-/

namespace JsonSchema.Yaml

open Relation (TransGen)

/-- The tags of nodes that have none of their own, but those of merge keys and default values. -/
def usualTags : List String :=
  [Tag.null, Tag.bool, Tag.int, Tag.float, Tag.str, Tag.seq, Tag.map]

def ReadFrom (json : Json) (node : YamlNode) : Prop :=
  ∃ value, node.scalar? = some value ∧ value.json? = some json

namespace YamlGraph

def HasUsualTags (g : YamlGraph) : Prop := ∀ node ∈ g.nodes, node.tag ∈ usualTags

instance (g : YamlGraph) : Decidable g.HasUsualTags :=
  inferInstanceAs (Decidable (∀ node ∈ g.nodes, node.tag ∈ usualTags))

/-- The value has been read from the content of its node. -/
inductive Holds (g : YamlGraph) (id : YamlId) : YamlValue → Prop
  | scalar {value : ScalarValue} (hvalue : (g.node id).scalar? = some value) :
      Holds g id (.scalar value)
  | sequence {items : List YamlId} (hcontent : (g.node id).content = .sequence items) :
      Holds g id (.sequence items)
  | mapping {members : Members YamlId} {entries : List Entry}
      (hcontent : (g.node id).content = .mapping entries) (hnodup : members.names.Nodup)
      (hmembers : List.Forall₂ (fun member entry =>
        (g.node entry.1).memberName? = .ok (some member.1) ∧ member.2 = entry.2) members entries) :
      Holds g id (.mapping members)

variable {g : YamlGraph} {id : YamlId} {entries : List Entry}

/-! ## Usual tags -/

theorem setNode_node (g : YamlGraph) (id : YamlId) : g.setNode id (g.node id) = g := by
  rw [setNode, node, Array.getD_eq_getD_getElem?]
  by_cases hid : id < g.nodes.size
  · simp [hid, Array.setIfInBounds]
  · simp [hid, Array.setIfInBounds]

namespace HasUsualTags

variable (h : g.HasUsualTags)

include h

theorem mem (hid : id < g.nodes.size) : (g.node id).tag ∈ usualTags := by
  rw [node, Array.getD_eq_getD_getElem?, Array.getElem?_eq_getElem hid]
  exact h _ (Array.getElem_mem hid)

theorem tag_ne (id : YamlId) : (g.node id).tag ≠ Tag.merge ∧ (g.node id).tag ≠ Tag.value := by
  by_cases hid : id < g.nodes.size
  · have hmem := h.mem hid
    revert hmem
    generalize (g.node id).tag = tag
    intro hmem
    constructor <;> rintro rfl <;> revert hmem <;> decide
  · rw [node_of_ge (Nat.not_lt.mp hid)]
    decide

theorem isMergeKey (entry : Entry) : g.isMergeKey entry = false := by
  simpa [YamlGraph.isMergeKey] using (h.tag_ne entry.1).1

theorem plainKey (entry : Entry) : g.plainKey entry = g := by
  simp [YamlGraph.plainKey, (h.tag_ne entry.1).2]

theorem plainKeys (entries : List Entry) : entries.foldl YamlGraph.plainKey g = g := by
  induction entries with
  | nil => rfl
  | cons entry rest ih => rw [List.foldl_cons, h.plainKey, ih]

theorem collection {tag : CollectionTag}
    (htag : KnownTag.ofText? (g.node id).tag = some (.collection tag)) :
    tag = .sequence ∨ tag = .mapping := by
  by_cases hid : id < g.nodes.size
  · have hmem := h.mem hid
    revert hmem htag
    generalize (g.node id).tag = text
    intro htag hmem
    simp only [usualTags, List.mem_cons, List.not_mem_nil, or_false] at hmem
    rcases hmem with rfl | rfl | rfl | rfl | rfl | rfl | rfl <;> revert htag <;>
      cases tag <;> decide
  · rw [node_of_ge (Nat.not_lt.mp hid)] at htag
    revert htag
    cases tag <;> decide

theorem mergeKeys (hcontent : (g.node id).content = .mapping entries) :
    g.mergeKeys id = .ok g := by
  have hself : g.setContent id (.mapping entries) = g := by
    rw [setContent, ← hcontent]
    exact setNode_node g id
  have hentries : g.entries id = entries := by rw [YamlGraph.entries, hcontent]
  rw [YamlGraph.mergeKeys, Merge.ofMapping, hentries, ofEntries_own fun entry _ => h.isMergeKey entry,
    h.plainKeys, List.nil_append, List.reverse_nil, List.nil_append, hself]

end HasUsualTags

end YamlGraph

open YamlGraph (Holds)

/-! ## Reading nodes -/

def Construction.missing (c : Construction) : Nat := c.values.countP Option.isNone

/-- The nodes whose content is still to be read, and those that have not been met. -/
def Construction.work (c : Construction) : Nat := c.missing + c.unread.length

/--
The values while a document with the usual tags is read. A collection in `waiting` or among those
that are unread is empty so far, and every other value has been read.
-/
structure Filled (g : YamlGraph) (waiting : List Unread) (c : Construction) : Prop where
  graph : c.graph = g
  size : c.values.size = g.nodes.size
  tags : ∀ u ∈ waiting ++ c.unread, KnownTag.ofText? (g.node u.id).tag = some (.collection u.tag)
  values : ∀ id value, c.value? id = some value →
    (∃ u ∈ waiting ++ c.unread, u.id = id ∧ value = u.tag.emptyValue) ∨
      g.Holds id value ∧ ∀ inner, g.Leads id inner → (c.value? inner).isSome = true

/-- Reading on: what has a value keeps one, and the work does not grow. -/
structure Proceeds (c c' : Construction) : Prop where
  values : ∀ id, (c.value? id).isSome = true → (c'.value? id).isSome = true
  work : c'.work ≤ c.work

namespace Proceeds

variable {c c' c'' : Construction}

theorem refl (c : Construction) : Proceeds c c := ⟨fun _ h => h, Nat.le_refl _⟩

theorem trans (h : Proceeds c c') (h' : Proceeds c' c'') : Proceeds c c'' :=
  ⟨fun id hid => h'.values id (h.values id hid), h'.work.trans h.work⟩

end Proceeds

namespace Construction

variable {c : Construction} {id : YamlId} {value : YamlValue}

theorem missing_setValue_le : (c.setValue id value).missing ≤ c.missing := by
  unfold missing setValue
  simp only [Array.setIfInBounds]
  split
  case isTrue h =>
    rw [Array.countP_set]
    simp
  case isFalse => exact Nat.le_refl _

theorem missing_setValue (value : YamlValue) (hid : id < c.values.size)
    (hnone : c.value? id = none) :
    (c.setValue id value).missing + 1 = c.missing := by
  have hold : c.values[id] = none := by
    rw [value?, Array.getElem?_eq_getElem hid] at hnone
    exact hnone
  have hpos : 0 < c.values.countP Option.isNone :=
    Array.countP_pos_iff.mpr ⟨c.values[id], Array.getElem_mem hid, by simp [hold]⟩
  unfold missing setValue
  simp only [Array.setIfInBounds, hid, dif_pos, Array.countP_set, hold]
  simp
  omega

theorem isSome_setValue {other : YamlId} (h : (c.value? other).isSome = true) :
    ((c.setValue id value).value? other).isSome = true := by
  by_cases hid : id < c.values.size
  · rw [value?_setValue hid]
    split
    · rfl
    · exact h
  · have hself : c.setValue id value = c := by simp [setValue, Array.setIfInBounds, hid]
    rwa [hself]

end Construction

open Construction (value?_setValue)

namespace Filled

variable {g : YamlGraph} {waiting : List Unread} {c c' : Construction} {id : YamlId}
  {value : YamlValue}

theorem lt_of_known {tag : KnownTag} (htag : KnownTag.ofText? (g.node id).tag = some tag) :
    id < g.nodes.size := by
  by_contra hge
  rw [YamlGraph.node_of_ge (Nat.not_lt.mp hge)] at htag
  revert htag
  cases tag with
  | scalar tag => cases tag <;> decide
  | collection tag => cases tag <;> decide

theorem not_leads {text : String} {inner : YamlId} (hcontent : (g.node id).content = .scalar text) :
    ¬ g.Leads id inner := by
  simp [YamlGraph.Leads, YamlGraph.items, YamlGraph.entries, hcontent]

theorem content_of_textOf (hg : g.HasUsualTags) {fuel : Nat} {t : Construction.NodeText}
    (h : Construction.textOf g fuel id = .ok t) :
    (g.node id).content = .scalar t.text ∧ t.inMapping = false := by
  cases fuel with
  | zero => cases h
  | succ fuel =>
    rw [Construction.textOf] at h
    cases hcontent : (g.node id).content with
    | scalar text =>
      simp only [hcontent] at h
      obtain rfl := Except.ok.inj h
      exact ⟨rfl, rfl⟩
    | sequence items => simp [hcontent, Construction.mismatch] at h
    | mapping entries =>
      have hnone : entries.find? (fun entry => (g.node entry.1).tag == Tag.value) = none := by
        simpa using fun key _ _ => (hg.tag_ne key).2
      simp [hcontent, hnone, Construction.mismatch] at h

theorem set (h : Filled g waiting c) (hid : id < g.nodes.size) {unread : List Unread}
    (htags : ∀ u ∈ waiting ++ unread, KnownTag.ofText? (g.node u.id).tag = some (.collection u.tag))
    (hkeeps : ∀ u ∈ c.unread, u ∈ unread)
    (hvalue : (∃ u ∈ waiting ++ unread, u.id = id ∧ value = u.tag.emptyValue) ∨
      g.Holds id value ∧ ∀ inner, g.Leads id inner →
        ((c.setValue id value).value? inner).isSome = true) :
    Filled g waiting { c.setValue id value with unread } where
  graph := h.graph
  size := Construction.size_setValue.trans h.size
  tags := htags
  values other found hfound := by
    have hget : Construction.value? { c.setValue id value with unread } other =
        if other = id then some value else c.value? other := value?_setValue (h.size ▸ hid)
    rw [hget] at hfound
    split at hfound
    case isTrue heq =>
      obtain rfl := Option.some.inj hfound
      exact heq ▸ hvalue
    case isFalse =>
      rcases h.values other found hfound with ⟨u, hu, hold⟩ | ⟨hholds, hinner⟩
      · refine .inl ⟨u, ?_, hold⟩
        rw [List.mem_append] at hu ⊢
        exact hu.imp_right (hkeeps u)
      · exact .inr ⟨hholds, fun inner hleads => Construction.isSome_setValue (hinner inner hleads)⟩

theorem valueOf (hg : g.HasUsualTags) (h : Filled g waiting c)
    (heq : c.valueOf id = .ok (value, c')) :
    Filled g waiting c' ∧ Proceeds c c' ∧ c'.value? id = some value := by
  unfold Construction.valueOf at heq
  cases hold : c.value? id with
  | some old =>
    simp only [hold, Except.ok.injEq, Prod.mk.injEq] at heq
    obtain ⟨rfl, rfl⟩ := heq
    exact ⟨h, .refl c, hold⟩
  | none =>
    simp only [hold, h.graph] at heq
    cases htag : KnownTag.ofText? (g.node id).tag with
    | none => simp [htag] at heq
    | some tag =>
      have hid := lt_of_known htag
      have hsize : id < c.values.size := h.size ▸ hid
      cases tag with
      | scalar tag =>
        simp only [htag] at heq
        obtain ⟨t, ht, heq⟩ := Except.bind_eq_ok.mp heq
        obtain ⟨found, hfound, heq⟩ := Except.bind_eq_ok.mp heq
        obtain ⟨rfl, rfl⟩ := Prod.mk.inj (Except.pure_eq_ok.mp heq)
        obtain ⟨hcontent, hplain⟩ := content_of_textOf hg ht
        rw [hplain] at hfound
        have hholds : g.Holds id (.scalar found) :=
          .scalar (by simp [YamlNode.scalar?, hcontent, htag, hfound, Except.toOption])
        refine ⟨h.set hid h.tags (fun _ hu => hu)
          (.inr ⟨hholds, fun inner hleads => absurd hleads (not_leads hcontent)⟩),
          ⟨fun _ => Construction.isSome_setValue, ?_⟩, ?_⟩
        · exact Nat.add_le_add_right Construction.missing_setValue_le _
        · rw [value?_setValue hsize, if_pos rfl]
      | collection tag =>
        simp only [htag, Except.ok.injEq, Prod.mk.injEq] at heq
        obtain ⟨rfl, rfl⟩ := heq
        refine ⟨h.set hid ?_ (fun _ => List.mem_cons_of_mem _)
          (.inl ⟨⟨id, tag⟩, by simp, rfl, rfl⟩), ⟨fun _ => Construction.isSome_setValue, ?_⟩, ?_⟩
        · intro u hu
          rw [List.mem_append, List.mem_cons] at hu
          rcases hu with hu | rfl | hu
          · exact h.tags u (List.mem_append_left _ hu)
          · exact htag
          · exact h.tags u (List.mem_append_right _ hu)
        · -- One node less has no value, and it waits for its content.
          have hmissing := Construction.missing_setValue tag.emptyValue hsize hold
          have hlength : ((⟨id, tag⟩ : Unread) :: c.unread).length = c.unread.length + 1 := rfl
          rw [Construction.work, Construction.work, ← hmissing, hlength, Nat.add_assoc,
            Nat.add_comm 1]
          exact Nat.le_refl _
        · exact (value?_setValue hsize).trans (if_pos rfl)

theorem visit (hg : g.HasUsualTags) (h : Filled g waiting c) {ids : List YamlId}
    (heq : c.visit ids = .ok c') :
    Filled g waiting c' ∧ Proceeds c c' ∧ ∀ id ∈ ids, (c'.value? id).isSome = true := by
  unfold Construction.visit at heq
  induction ids generalizing c with
  | nil =>
    obtain rfl := Except.pure_eq_ok.mp heq
    exact ⟨h, .refl c, nofun⟩
  | cons first rest ih =>
    rw [List.foldlM_cons] at heq
    obtain ⟨c₁, heq₁, hrest⟩ := Except.bind_eq_ok.mp heq
    obtain ⟨⟨value, c₁'⟩, hvalue, heq₁⟩ := Except.bind_eq_ok.mp heq₁
    obtain rfl := Except.pure_eq_ok.mp heq₁
    obtain ⟨h₁, hproceeds₁, hfirst⟩ := h.valueOf hg hvalue
    obtain ⟨h', hproceeds, hvalues⟩ := ih h₁ hrest
    refine ⟨h', hproceeds₁.trans hproceeds, List.forall_mem_cons.mpr ⟨?_, hvalues⟩⟩
    exact hproceeds.values first (by simp [hfirst])

/-! ## Mappings -/

theorem memberName? (h : Filled g waiting c) {name : String} (hvalue : c.value? id = some value)
    (hname : Construction.nameOf value = .ok name) :
    (g.node id).memberName? = .ok (some name) := by
  have hholds : g.Holds id value := by
    rcases h.values id value hvalue with ⟨u, -, -, rfl⟩ | ⟨hholds, -⟩
    · cases htag : u.tag <;> simp [htag, CollectionTag.emptyValue, Construction.nameOf] at hname
    · exact hholds
  cases hholds with
  | @scalar found hfound =>
    obtain ⟨text, tag, hcontent, htag, hread⟩ := YamlGraph.scalar?_eq_some hfound
    have hgiven : (Except.ok found).bind ScalarValue.name = .ok name := hname
    simp [YamlNode.memberName?, hcontent, htag, hread, hgiven]
  | sequence => simp [Construction.nameOf] at hname
  | mapping => simp [Construction.nameOf] at hname

end Filled

structure Gathers (g : YamlGraph) (waiting : List Unread) (c : Construction)
    (entries : List Entry) (r : Construction.Reading) : Prop where
  filled : Filled g waiting r.construction
  proceeds : Proceeds c r.construction
  nodup : r.members.names.Nodup
  fixed : ∀ name, name ∈ r.fixed ↔ name ∈ r.members.names
  members : List.Forall₂ (fun member entry =>
    (g.node entry.1).memberName? = .ok (some member.1) ∧ member.2 = entry.2) r.members entries
  values : ∀ entry ∈ entries, (r.construction.value? entry.1).isSome = true ∧
    (r.construction.value? entry.2).isSome = true

namespace Gathers

variable {g : YamlGraph} {waiting : List Unread} {c : Construction} {before entries : List Entry}
  {r r' : Construction.Reading} {entry : Entry}

theorem step (hg : g.HasUsualTags) (h : Gathers g waiting c before r)
    (heq : Construction.readEntry r entry false = .ok r') :
    Gathers g waiting c (before ++ [entry]) r' := by
  unfold Construction.readEntry at heq
  obtain ⟨⟨key, c₁⟩, hkey, heq⟩ := Except.bind_eq_ok.mp heq
  obtain ⟨name, hname, heq⟩ := Except.bind_eq_ok.mp heq
  obtain ⟨h₁, hproceeds₁, hvalue₁⟩ := h.filled.valueOf hg hkey
  have hmember := h₁.memberName? hvalue₁ hname
  simp only [Bool.not_false, Bool.true_and] at heq
  split at heq
  case isTrue => cases heq
  case isFalse hfresh =>
    have hnew : name ∉ r.members.names := by
      rw [← h.fixed]
      simpa using hfresh
    obtain ⟨-, -, heq⟩ := Except.bind_eq_ok.mp heq
    obtain ⟨⟨value, c₂⟩, hvalue, heq⟩ := Except.bind_eq_ok.mp heq
    obtain rfl := Except.pure_eq_ok.mp heq
    obtain ⟨h₂, hproceeds₂, hvalue₂⟩ := h₁.valueOf hg hvalue
    have hput : r.members.put name entry.2 = r.members ++ [(name, entry.2)] :=
      Members.put_of_notMem entry.2 hnew
    constructor
    case filled => exact h₂
    case proceeds => exact h.proceeds.trans (hproceeds₁.trans hproceeds₂)
    case nodup => exact Members.nodup_put h.nodup
    case fixed =>
      intro other
      simp [Members.mem_names_put, h.fixed]
    case members =>
      simp only [hput]
      exact List.rel_append h.members (.cons ⟨hmember, rfl⟩ .nil)
    case values =>
      have hgrow : ∀ id, (r.construction.value? id).isSome = true →
          (c₂.value? id).isSome = true := (hproceeds₁.trans hproceeds₂).values
      refine List.forall_mem_append.mpr ⟨fun other hother => ?_, ?_⟩
      · exact (h.values other hother).imp (hgrow _) (hgrow _)
      · simp [hvalue₂, hproceeds₂.values entry.1 (by simp [hvalue₁])]

theorem run (hg : g.HasUsualTags) (h : Gathers g waiting c before r)
    (heq : entries.foldlM (Construction.readEntry · · false) r = .ok r') :
    Gathers g waiting c (before ++ entries) r' := by
  induction entries generalizing before r with
  | nil =>
    obtain rfl := Except.pure_eq_ok.mp heq
    rwa [List.append_nil]
  | cons first rest ih =>
    rw [List.foldlM_cons] at heq
    obtain ⟨r₁, hfirst, hrest⟩ := Except.bind_eq_ok.mp heq
    simpa using ih (h.step hg hfirst) hrest

end Gathers

namespace Filled

variable {g : YamlGraph} {waiting : List Unread} {c c' : Construction} {id : YamlId}
  {u : Unread}

theorem membersOf (hg : g.HasUsualTags) (h : Filled g waiting c) {members : Members YamlId}
    (heq : c.membersOf id = .ok (members, c')) :
    Filled g waiting c' ∧ Proceeds c c' ∧ g.Holds id (.mapping members) ∧
      ∀ inner, g.Leads id inner → (c'.value? inner).isSome = true := by
  unfold Construction.membersOf at heq
  simp only [h.graph] at heq
  split at heq
  case isTrue => simp [Construction.mismatch, bind, Except.bind] at heq
  case isFalse hkind =>
    have hcontent := YamlGraph.entries_eq (by simpa using hkind)
    have hown : (g.entries id).filter (!g.isMergeKey ·) = g.entries id :=
      (YamlGraph.filter_others fun entry _ => hg.isMergeKey entry).1
    have hgraph : { c with graph := g } = c := by rw [← h.graph]
    have hfold := foldlM_zipIdx [] (g.entries id) (r := ⟨c, [], []⟩)
    simp only [List.nil_append, List.foldlM_nil, pure_bind, List.length_nil] at hfold
    simp only [hg.mergeKeys hcontent, Except.ok_bind, hown, Nat.sub_self, hgraph, hfold] at heq
    obtain ⟨r, hr, heq⟩ := Except.bind_eq_ok.mp heq
    obtain ⟨rfl, rfl⟩ := Prod.mk.inj (Except.pure_eq_ok.mp heq)
    have hstart : Gathers g waiting c [] ⟨c, [], []⟩ :=
      ⟨h, .refl c, List.nodup_nil, by simp [Members.names], .nil, nofun⟩
    have hall := hstart.run hg hr
    rw [List.nil_append] at hall
    refine ⟨hall.filled, hall.proceeds, .mapping hcontent hall.nodup hall.members, ?_⟩
    rintro inner (hitem | ⟨entry, hentry, rfl | rfl⟩)
    · simp [YamlGraph.items, hcontent] at hitem
    · exact (hall.values entry hentry).1
    · exact (hall.values entry hentry).2

theorem settle (h : Filled g (u :: waiting) c) {value : YamlValue} (hholds : g.Holds u.id value)
    (hinner : ∀ inner, g.Leads u.id inner → (c.value? inner).isSome = true) :
    Filled g waiting (c.setValue u.id value) ∧ Proceeds c (c.setValue u.id value) := by
  have hid : u.id < g.nodes.size := lt_of_known (h.tags u (by simp))
  refine ⟨⟨h.graph, Construction.size_setValue.trans h.size,
    fun other hother => h.tags other (List.mem_cons_of_mem u hother), fun other found hfound => ?_⟩,
    fun _ => Construction.isSome_setValue, Nat.add_le_add_right Construction.missing_setValue_le _⟩
  rw [value?_setValue (h.size ▸ hid)] at hfound
  split at hfound
  case isTrue heq =>
    obtain rfl := Option.some.inj hfound
    exact .inr ⟨heq ▸ hholds, fun inner hleads =>
      Construction.isSome_setValue (hinner inner (heq ▸ hleads))⟩
  case isFalse hne =>
    rcases h.values other found hfound with ⟨v, hv, rfl, hold⟩ | ⟨hheld, hothers⟩
    · rcases List.mem_cons.mp hv with rfl | hv
      · exact absurd rfl hne
      · exact .inl ⟨v, hv, rfl, hold⟩
    · exact .inr ⟨hheld, fun inner hleads => Construction.isSome_setValue (hothers inner hleads)⟩

theorem readContent (hg : g.HasUsualTags) (h : Filled g (u :: waiting) c)
    (heq : c.readContent u = .ok c') : Filled g waiting c' ∧ Proceeds c c' := by
  unfold Construction.readContent at heq
  rcases hg.collection (h.tags u (by simp)) with htag | htag
  · simp only [htag] at heq
    obtain ⟨items, hitems, heq⟩ := Except.bind_eq_ok.mp heq
    obtain ⟨c₁, hvisit, heq⟩ := Except.bind_eq_ok.mp heq
    obtain rfl := Except.pure_eq_ok.mp heq
    have hcontent : (g.node u.id).content = .sequence items := by
      unfold Construction.itemsOf at hitems
      rw [h.graph] at hitems
      dsimp only at hitems
      split at hitems
      case h_1 hcontent => rw [hcontent, Except.ok.inj hitems]
      case h_2 => cases hitems
    obtain ⟨h₁, hproceeds₁, hvalues⟩ := h.visit hg hvisit
    have hinner : ∀ inner, g.Leads u.id inner → (c₁.value? inner).isSome = true := by
      rintro inner (hitem | ⟨entry, hentry, -⟩)
      · exact hvalues inner (by rwa [YamlGraph.items, hcontent] at hitem)
      · simp [YamlGraph.entries, hcontent] at hentry
    obtain ⟨h', hproceeds⟩ := h₁.settle (.sequence hcontent) hinner
    exact ⟨h', hproceeds₁.trans hproceeds⟩
  · simp only [htag] at heq
    obtain ⟨⟨members, c₁⟩, hmembers, heq⟩ := Except.bind_eq_ok.mp heq
    obtain rfl := Except.pure_eq_ok.mp heq
    obtain ⟨h₁, hproceeds₁, hholds, hinner⟩ := h.membersOf hg hmembers
    obtain ⟨h', hproceeds⟩ := h₁.settle hholds hinner
    exact ⟨h', hproceeds₁.trans hproceeds⟩

theorem round (hg : g.HasUsualTags) (h : Filled g waiting c)
    (heq : waiting.foldlM Construction.readContent c = .ok c') :
    Filled g [] c' ∧ Proceeds c c' := by
  induction waiting generalizing c with
  | nil =>
    obtain rfl := Except.pure_eq_ok.mp heq
    exact ⟨h, .refl c⟩
  | cons u rest ih =>
    rw [List.foldlM_cons] at heq
    obtain ⟨c₁, hfirst, hrest⟩ := Except.bind_eq_ok.mp heq
    obtain ⟨h₁, hproceeds₁⟩ := h.readContent hg hfirst
    obtain ⟨h', hproceeds⟩ := ih h₁ hrest
    exact ⟨h', hproceeds₁.trans hproceeds⟩

theorem begin (h : Filled g [] c) : Filled g c.unread.reverse { c with unread := [] } where
  graph := h.graph
  size := h.size
  tags u hu := h.tags u (by simpa using hu)
  values id value hvalue := by
    rcases h.values id value hvalue with ⟨u, hu, hold⟩ | hholds
    · exact .inl ⟨u, by simpa using hu, hold⟩
    · exact .inr hholds

theorem readWaiting (hg : g.HasUsualTags) (h : Filled g [] c) {fuel : Nat} (hfuel : c.work < fuel)
    (heq : Construction.readWaiting fuel c = .ok c') :
    Filled g [] c' ∧ Proceeds c c' ∧ c'.unread = [] := by
  -- On the fuel: a round that is not the last one leaves less work.
  induction fuel generalizing c with
  | zero => exact absurd hfuel (Nat.not_lt_zero _)
  | succ fuel ih =>
    rw [Construction.readWaiting] at heq
    cases hunread : c.unread with
    | nil =>
      simp only [hunread, List.isEmpty_nil, if_true] at heq
      obtain rfl := Except.pure_eq_ok.mp heq
      exact ⟨h, .refl c, hunread⟩
    | cons u rest =>
      have hless : Construction.work { c with unread := [] } < c.work := by
        simp [Construction.work, Construction.missing, hunread]
      have hkeeps : ∀ id, (c.value? id).isSome = true →
        (Construction.value? { c with unread := [] } id).isSome = true := fun _ h => h
      simp only [hunread, List.isEmpty_cons, Bool.false_eq_true, if_false] at heq
      obtain ⟨c₁, hround, hrest⟩ := Except.bind_eq_ok.mp heq
      rw [← hunread] at hround
      obtain ⟨h₁, hproceeds₁⟩ := h.begin.round hg hround
      have hwork := hproceeds₁.work
      obtain ⟨h', hproceeds, hdone⟩ := ih h₁ (by omega) hrest
      refine ⟨h', ⟨fun id hid => ?_, ?_⟩, hdone⟩
      · exact hproceeds.values id (hproceeds₁.values id (hkeeps id hid))
      · exact hproceeds.work.trans (hwork.trans (Nat.le_of_lt hless))

theorem start (g : YamlGraph) : Filled g [] (Construction.start g) where
  graph := rfl
  size := Array.size_replicate
  tags := nofun
  values id value hvalue := by
    rw [value?_start] at hvalue
    cases hvalue

end Filled

/-! ## Whole documents -/

def HoldsAll (g : YamlGraph) (c : Construction) : Prop :=
  ∀ id value, c.value? id = some value →
    g.Holds id value ∧ ∀ inner, g.Leads id inner → (c.value? inner).isSome = true

theorem holdsAll_of_ofGraph {g : YamlGraph} {root : YamlId} {c : Construction}
    (hg : g.HasUsualTags) (h : Construction.ofGraph g root = .ok c) :
    HoldsAll g c ∧ (c.value? root).isSome = true := by
  rw [Construction.ofGraph] at h
  obtain ⟨⟨value, c₁⟩, hvalue, hrest⟩ := Except.bind_eq_ok.mp h
  obtain ⟨h₁, hproceeds₁, hroot⟩ := (Filled.start g).valueOf hg hvalue
  have hstart : (Construction.start g).work = g.nodes.size := by
    simp [Construction.work, Construction.missing, Construction.start, Array.countP_replicate]
  have hwork := hproceeds₁.work
  obtain ⟨h', hproceeds, hdone⟩ := h₁.readWaiting hg (by omega) hrest
  refine ⟨fun id value hvalue => ?_, hproceeds.values root (by simp [hroot])⟩
  rcases h'.values id value hvalue with ⟨u, hu, -⟩ | hholds
  · simp [hdone] at hu
  · exact hholds

end JsonSchema.Yaml

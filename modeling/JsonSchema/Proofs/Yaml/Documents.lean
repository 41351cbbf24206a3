import JsonSchema.Document.Yaml
import JsonSchema.Proofs.Json.Members
import JsonSchema.Proofs.Yaml.Rounds

/-!
# What a YAML document says

The JSON value of a document without cycles. A mapping has the keys that it has itself and those of
its merge sources, however deep they nest.
-/

namespace JsonSchema

namespace Yaml

open Relation (TransGen ReflTransGen)

namespace YamlGraph

/-- The JSON value says what the node of a document stands for. -/
inductive Depicts (g : YamlGraph) : Json → YamlId → Prop
  | scalar {id : YamlId} {value : ScalarValue} {json : Json}
      (hvalue : (g.node id).scalar? = some value) (hjson : value.json? = some json) :
      Depicts g json id
  | sequence {id : YamlId} {items : List YamlId} {values : List Json}
      (hitems : (g.node id).content = .sequence items)
      (hvalues : List.Forall₂ (Depicts g) values items) : Depicts g (.arr values) id
  | mapping {id : YamlId} {members : Members Json} (child : String → YamlId)
      (hkind : (g.node id).kind = .mapping) (hnodup : members.names.Nodup)
      (hnames : ∀ name, name ∈ members.names ↔ g.HasKey id name)
      (hgives : ∀ name ∈ members.names, g.Gives id name (child name))
      (hvalues : ∀ name value, (name, value) ∈ members → Depicts g value (child name)) :
      Depicts g (.obj members) id

variable {G : YamlGraph} {root id : YamlId} {c : Construction} {value : ScalarValue} {json : Json}

/-! ## Inside a node -/

theorem leads_of_value (hg : G.Regular root) {entry : Entry} (h : entry ∈ G.expanded id) :
    TransGen G.Leads id entry.2 := by
  obtain ⟨source, hreach, hown⟩ := mem_expanded hg h
  have hlast : G.Leads source entry.2 := .inr ⟨entry, mem_entries_of_own hown, .inr rfl⟩
  rcases Relation.reflTransGen_iff_eq_or_transGen.mp hreach with rfl | hmerges
  · exact .single hlast
  · exact TransGen.tail (TransGen.closed (fun _ _ => leads_of_source) _ _ hmerges) hlast

def Shows (G : YamlGraph) (c : Construction) (id : YamlId) (json : Json) : Prop :=
  ∀ fuel around pointer, (∀ outer ∈ around, TransGen G.Leads outer id) →
    c.toJson fuel around pointer id = if json.depth < fuel then .ok json else .error tooDeep

theorem itemsToJson_eq {fuel : Nat} {around : List YamlId} {items : List YamlId}
    (value : YamlId → Json) (hitems : ∀ item ∈ items, G.Shows c item (value item))
    (haround : ∀ outer ∈ around, ∀ item ∈ items, TransGen G.Leads outer item)
    (pointer : List String) (index : Nat) :
    c.itemsToJson fuel around pointer index items =
      if itemsDepth (items.map value) ≤ fuel then .ok (items.map value) else .error tooDeep := by
  induction items generalizing index with
  | nil =>
    rw [Construction.itemsToJson]
    simp [itemsDepth]
  | cons item rest ih =>
    rw [List.forall_mem_cons] at hitems
    rw [Construction.itemsToJson, hitems.1 fuel around _ fun outer houter =>
      haround outer houter item List.mem_cons_self,
      ih hitems.2 fun outer houter item hitem => haround outer houter item
        (List.mem_cons_of_mem _ hitem)]
    simp only [List.map_cons, itemsDepth, max_le_iff, ← Nat.lt_iff_add_one_le]
    by_cases hfirst : (value item).depth < fuel
    · by_cases hrest : itemsDepth (rest.map value) ≤ fuel <;>
        simp [hfirst, hrest, bind, Except.bind, pure, Except.pure]
    · simp [hfirst, bind, Except.bind]

theorem membersToJson_eq {fuel : Nat} {around : List YamlId} {members : Members YamlId}
    (value : YamlId → Json) (hmembers : ∀ member ∈ members, G.Shows c member.2 (value member.2))
    (haround : ∀ outer ∈ around, ∀ member ∈ members, TransGen G.Leads outer member.2)
    (pointer : List String) :
    c.membersToJson fuel around pointer members =
      if membersDepth (members.map fun member => (member.1, value member.2)) ≤ fuel then
        .ok (members.map fun member => (member.1, value member.2))
      else .error tooDeep := by
  induction members with
  | nil =>
    rw [Construction.membersToJson]
    simp [membersDepth]
  | cons member rest ih =>
    rw [List.forall_mem_cons] at hmembers
    rw [Construction.membersToJson, hmembers.1 fuel around _ fun outer houter =>
      haround outer houter member List.mem_cons_self,
      ih hmembers.2 fun outer houter other hother => haround outer houter other
        (List.mem_cons_of_mem _ hother)]
    simp only [List.map_cons, membersDepth, max_le_iff, ← Nat.lt_iff_add_one_le]
    by_cases hfirst : (value member.2).depth < fuel
    · by_cases hrest :
          membersDepth (rest.map fun member => (member.1, value member.2)) ≤ fuel <;>
        simp [hfirst, hrest, bind, Except.bind, pure, Except.pure]
    · simp [hfirst, bind, Except.bind]

/-! ## Values -/

theorem notMem_around (hg : G.Regular root) {around : List YamlId}
    (h : ∀ outer ∈ around, TransGen G.Leads outer id) : around.contains id = false := by
  rw [List.contains_eq_mem, decide_eq_false_iff_not]
  exact fun hmem => hg.acyclic id (h id hmem)

theorem around_cons {around : List YamlId} (h : ∀ outer ∈ around, TransGen G.Leads outer id)
    {inner : YamlId} (hinner : TransGen G.Leads id inner) :
    ∀ outer ∈ id :: around, TransGen G.Leads outer inner :=
  List.forall_mem_cons.mpr ⟨hinner, fun outer houter => (h outer houter).trans hinner⟩

theorem depth_of_json? (h : value.json? = some json) : json.depth = 0 := by
  unfold ScalarValue.json? at h
  split at h <;> cases h <;> rfl

theorem shows_scalar (hvalue : c.value? id = some (.scalar value))
    (hjson : value.json? = some json) : G.Shows c id json := by
  intro fuel around pointer _
  rw [depth_of_json? hjson]
  cases fuel with
  | zero => rw [Construction.toJson, if_neg (Nat.lt_irrefl 0)]
  | succ fuel =>
    rw [Construction.toJson, hvalue, if_pos (Nat.succ_pos fuel)]
    unfold ScalarValue.json? at hjson
    split at hjson <;> cases hjson <;> rfl

theorem shows_sequence (hg : G.Regular root) {items : List YamlId}
    (hvalue : c.value? id = some (.sequence items)) (value : YamlId → Json)
    (hitems : ∀ item ∈ items, G.Shows c item (value item))
    (hleads : ∀ item ∈ items, TransGen G.Leads id item) :
    G.Shows c id (.arr (items.map value)) := by
  intro fuel around pointer haround
  cases fuel with
  | zero => rw [Construction.toJson, if_neg (Nat.not_lt_zero _)]
  | succ fuel =>
    rw [Construction.toJson, hvalue]
    simp only [Option.getD_some, notMem_around hg haround, Bool.false_eq_true, if_false, Json.depth,
      Nat.lt_succ_iff]
    rw [itemsToJson_eq value hitems fun outer houter item hitem =>
      around_cons haround (hleads item hitem) outer houter]
    split <;> rfl

theorem shows_pairs (hvalue : c.value? id = some (.pairs 0)) : G.Shows c id (.arr []) := by
  intro fuel around pointer _
  cases fuel with
  | zero => rw [Construction.toJson, if_neg (Nat.not_lt_zero _)]
  | succ fuel =>
    rw [Construction.toJson, hvalue]
    simp [Json.depth, itemsDepth]

theorem shows_mapping (hg : G.Regular root) {members : Members YamlId}
    (hvalue : c.value? id = some (.mapping members)) (value : YamlId → Json)
    (hmembers : ∀ member ∈ members, G.Shows c member.2 (value member.2))
    (hleads : ∀ member ∈ members, TransGen G.Leads id member.2) :
    G.Shows c id (.obj (members.map fun member => (member.1, value member.2))) := by
  intro fuel around pointer haround
  cases fuel with
  | zero => rw [Construction.toJson, if_neg (Nat.not_lt_zero _)]
  | succ fuel =>
    rw [Construction.toJson, hvalue]
    simp only [Option.getD_some, notMem_around hg haround, Bool.false_eq_true, if_false, Json.depth,
      Nat.lt_succ_iff]
    rw [membersToJson_eq value hmembers fun outer houter member hmember =>
      around_cons haround (hleads member hmember) outer houter]
    split <;> rfl

/-! ## Documents -/

/-- What is known of a node that has a value: a JSON value depicts it, and the value shows that. -/
def Depicted (G : YamlGraph) (c : Construction) (id : YamlId) (json : Json) : Prop :=
  G.Depicts json id ∧ G.Shows c id json

theorem depicted_scalar (hc : Complete G root c) (hid : G.fits id = true)
    (hkind : (G.node id).kind = .scalar) (hvalue : (c.value? id).isSome = true) :
    ∃ json, G.Depicted c id json := by
  obtain ⟨found, hfound⟩ := Option.isSome_iff_exists.mp hvalue
  obtain ⟨value, hscalar, rfl⟩ := hc.scalar id found hkind hfound
  obtain ⟨value', json, hscalar', hjson, htag⟩ := scalar_of_fits hid hkind
  obtain rfl := Option.some.inj (hscalar.symm.trans hscalar')
  have hplain : (G.node id).plain = G.node id := if_neg (by simpa using htag)
  exact ⟨json, .scalar (hplain ▸ hscalar) hjson, shows_scalar hfound hjson⟩

theorem leads_of_item {items : List YamlId} (hcontent : (G.node id).content = .sequence items)
    {item : YamlId} (h : item ∈ items) : TransGen G.Leads id item := by
  refine .single (.inl ?_)
  rwa [YamlGraph.items, hcontent]

theorem depicted_sequence (hg : G.Regular root) (hid : G.fits id = true) {items : List YamlId}
    (hcontent : (G.node id).content = .sequence items) (hvalue : c.value? id = some (G.valueAt id))
    (ih : ∀ item ∈ items, ∃ json, G.Depicted c item json) :
    ∃ json, G.Depicted c id json := by
  choose! value hitems using ih
  simp only [fits, hcontent, Bool.or_eq_true, Bool.and_eq_true, beq_iff_eq] at hid
  rw [valueAt, hcontent] at hvalue
  rcases hid with hsequence | ⟨hpairs, hempty⟩
  · refine ⟨.arr (items.map value), .sequence hcontent ?_, ?_⟩
    · rw [List.forall₂_map_left_iff, List.forall₂_same]
      exact fun item hitem => (hitems item hitem).1
    · simp only [hsequence, if_true] at hvalue
      exact shows_sequence hg hvalue value (fun item hitem => (hitems item hitem).2)
        fun item hitem => leads_of_item hcontent hitem
  · obtain rfl := List.isEmpty_iff.mp hempty
    refine ⟨.arr [], .sequence hcontent .nil, shows_pairs ?_⟩
    rw [hvalue, hpairs]
    rfl

theorem depicted_mapping (hg : G.Regular root) (hkind : (G.node id).kind = .mapping)
    (hvalue : c.value? id = some (G.valueAt id))
    (ih : ∀ member ∈ G.members id, ∃ json, G.Depicted c member.2 json) :
    ∃ json, G.Depicted c id json := by
  have hchild : ∀ child ∈ (G.members id).map (·.2), ∃ json, G.Depicted c child json := by
    intro child hchild
    obtain ⟨member, hmember, rfl⟩ := List.mem_map.mp hchild
    exact ih member hmember
  choose! value hvalues using hchild
  replace hvalues : ∀ member ∈ G.members id, G.Depicted c member.2 (value member.2) :=
    fun member hmember => hvalues member.2 (List.mem_map_of_mem hmember)
  have hnames : Members.names ((G.members id).map fun member => (member.1, value member.2)) =
      (G.members id).names := by simp [Members.names]
  refine ⟨.obj ((G.members id).map fun member => (member.1, value member.2)),
    .mapping (fun name => ((G.members id).get? name).getD id) hkind ?_ ?_ ?_ ?_, ?_⟩
  · rw [hnames]
    exact nodup_members G id
  · intro name
    rw [hnames]
    exact mem_names_members hg
  · intro name hname
    rw [hnames, ← not_iff_not.mpr Members.get?_eq_none_iff |>.trans not_not] at hname
    obtain ⟨child, hget⟩ := Option.ne_none_iff_exists'.mp hname
    rw [hget]
    exact gives_of_members hg (Members.mem_of_get? hget)
  · intro name json hmem
    obtain ⟨member, hmember, heq⟩ := List.mem_map.mp hmem
    obtain ⟨rfl, rfl⟩ := Prod.mk.inj heq
    rw [Members.get?_of_mem (nodup_members G id) hmember]
    exact (hvalues member hmember).1
  · rw [valueAt_mapping hkind] at hvalue
    refine shows_mapping hg hvalue value (fun member hmember => (hvalues member hmember).2)
      fun member hmember => ?_
    obtain ⟨key, hkey⟩ := mem_expanded_of_members hmember
    exact leads_of_value hg hkey

theorem exists_depicted (hg : G.Regular root) (hc : Complete G root c) (hid : G.fits id = true)
    (hvalue : (c.value? id).isSome = true) : ∃ json, G.Depicted c id json := by
  -- On the rank: items and values nest less deep than the collection around them.
  induction hrank : G.rank id using Nat.strong_induction_on generalizing id with
  | _ rank ih =>
    by_cases hkind : (G.node id).kind = .scalar
    · exact depicted_scalar hc hid hkind hvalue
    obtain ⟨value, hsome⟩ := Option.isSome_iff_exists.mp hvalue
    obtain ⟨rfl, hchildren⟩ := hc.collection id value hkind hsome
    have hinside : ∀ inner ∈ G.children id, G.fits inner = true → TransGen G.Leads id inner →
        ∃ json, G.Depicted c inner json := fun inner hinner hfits hleads =>
      ih _ (hrank ▸ rank_lt hg hleads (lt_of_fits hfits)) hfits (hchildren inner hinner) rfl
    cases hcontent : (G.node id).content with
    | scalar text => exact absurd (congrArg Content.kind hcontent) hkind
    | sequence items =>
      refine depicted_sequence hg hid hcontent hsome fun item hitem => hinside item ?_ ?_ ?_
      · rwa [children_sequence hcontent]
      · exact hg.items id item (by rwa [YamlGraph.items, hcontent])
      · exact leads_of_item hcontent hitem
    | mapping entries =>
      have hmapping : (G.node id).kind = .mapping := congrArg Content.kind hcontent
      refine depicted_mapping hg hmapping hsome fun member hmember => ?_
      obtain ⟨key, hkey⟩ := mem_expanded_of_members hmember
      refine hinside member.2 ?_ (fits_of_expanded hg hkey) (leads_of_value hg hkey)
      rw [children_mapping hmapping, nodesOf]
      exact List.mem_flatMap.mpr ⟨_, hkey, by simp⟩

end YamlGraph

open YamlGraph

/-- The outcome of a document without cycles: a repeated name, or a value that depicts its root. -/
theorem ComposedDocument.toJson_outcome {g : YamlGraph} {root : YamlId} (hg : g.Regular root) :
    (g.Repeats root ∧ IsRepeat (ComposedDocument.toJson ⟨g, some root⟩)) ∨
      ¬ g.Repeats root ∧ ∃ json, g.Depicts json root ∧
        ComposedDocument.toJson ⟨g, some root⟩ =
          if json.depth ≤ yamlDepthLimit then .ok json else .error tooDeep := by
  rcases ofGraph_outcome hg with ⟨hrepeats, place, name, hfault⟩ | ⟨hfresh, c, heq, hc⟩
  · refine .inl ⟨hrepeats, place, name, ?_⟩
    rw [ComposedDocument.toJson]
    dsimp only
    rw [hfault]
    rfl
  · obtain ⟨json, hdepicts, hshows⟩ := exists_depicted hg hc hg.root hc.root
    refine .inr ⟨hfresh, json, hdepicts, ?_⟩
    rw [ComposedDocument.toJson]
    dsimp only
    rw [heq, Except.ok_bind, hshows _ _ _ (by simp)]
    simp only [Nat.lt_succ_iff]

/--
A document without cycles is refused for a repeated name if and only if one of its mappings repeats
a name when it is read. Otherwise its value has all keys of its mappings and of their merge sources,
and only containers that nest too deep can stand in the way.
-/
theorem parsed_document_merges {chars : Except YamlFault (List Char)} {g : YamlGraph}
    {root : YamlId}
    (hcomposed : chars >>= ComposedDocument.ofChars = .ok ⟨g, some root⟩) (hg : g.Regular root) :
    ((∃ place name, Json.parseYamlChars chars =
        .error (.yaml (.here place (.duplicateKey name)))) ↔ g.Repeats root) ∧
      (¬ g.Repeats root → ∃ json, g.Depicts json root ∧
        Json.parseYamlChars chars =
          if json.depth ≤ yamlDepthLimit then .ok json else .error (.yaml tooDeep)) := by
  have hparse : Json.parseYamlChars chars =
      (ComposedDocument.toJson ⟨g, some root⟩).mapError .yaml := by
    rw [Json.parseYamlChars, ← bind_assoc, hcomposed, Except.ok_bind]
  rw [hparse]
  rcases ComposedDocument.toJson_outcome hg with
    ⟨hrepeats, place, name, hfault⟩ | ⟨hfresh, json, hdepicts, hvalue⟩
  · refine ⟨iff_of_true ⟨place, name, ?_⟩ hrepeats, absurd hrepeats⟩
    rw [hfault]
    rfl
  · rw [hvalue]
    refine ⟨iff_of_false ?_ hfresh, fun _ => ⟨json, hdepicts, ?_⟩⟩
    · rintro ⟨place, name, hfault⟩
      split at hfault <;> cases hfault
    · split <;> rfl

/-- The mapping under `c` merges the one under `b`, which is met later than `c` is. -/
def earlyMerge : String :=
  "a: &a\n  x: 1\nouter:\n  b: &b\n    <<: *a\n    x: 2\nc:\n  <<: *b\n"

def earlyMergeGraph : YamlGraph := ⟨#[
  ⟨Tag.map, ⟨1, 1⟩, .mapping [(1, 2), (5, 6), (12, 13)]⟩,
  ⟨Tag.str, ⟨1, 1⟩, .scalar "a"⟩,
  ⟨Tag.map, ⟨1, 4⟩, .mapping [(3, 4)]⟩,
  ⟨Tag.str, ⟨2, 3⟩, .scalar "x"⟩,
  ⟨Tag.int, ⟨2, 6⟩, .scalar "1"⟩,
  ⟨Tag.str, ⟨3, 1⟩, .scalar "outer"⟩,
  ⟨Tag.map, ⟨4, 3⟩, .mapping [(7, 8)]⟩,
  ⟨Tag.str, ⟨4, 3⟩, .scalar "b"⟩,
  ⟨Tag.map, ⟨4, 6⟩, .mapping [(9, 2), (10, 11)]⟩,
  ⟨Tag.merge, ⟨5, 5⟩, .scalar "<<"⟩,
  ⟨Tag.str, ⟨6, 5⟩, .scalar "x"⟩,
  ⟨Tag.int, ⟨6, 8⟩, .scalar "2"⟩,
  ⟨Tag.str, ⟨7, 1⟩, .scalar "c"⟩,
  ⟨Tag.map, ⟨8, 3⟩, .mapping [(14, 8)]⟩,
  ⟨Tag.merge, ⟨8, 3⟩, .scalar "<<"⟩]⟩

theorem earlyMerge_composed :
    YamlSource.ofText earlyMerge >>= ComposedDocument.ofChars = .ok ⟨earlyMergeGraph, some 0⟩ := by
  have hnodes : (YamlSource.ofText earlyMerge >>= ComposedDocument.ofChars).toOption.map
      (fun document => (document.graph.nodes, document.root)) =
      some (earlyMergeGraph.nodes, some 0) := by decide +kernel
  obtain ⟨⟨⟨nodes⟩, root⟩, hdocument, heq⟩ := Option.map_eq_some_iff.mp hnodes
  obtain ⟨rfl, rfl⟩ := Prod.mk.inj heq
  exact Except.toOption_eq_some.mp hdocument

theorem earlyMerge_regular : earlyMergeGraph.Regular 0 :=
  regular_of_checked (fun id => [4, 0, 1, 0, 0, 0, 3, 0, 2, 0, 0, 0, 0, 3, 0].getD id 0)
    (by decide +kernel) (by decide +kernel)

theorem earlyMerge_repeats : earlyMergeGraph.Repeats 0 := by
  have hmerges : earlyMergeGraph.Merges 13 8 := by
    have hmem : 8 ∈ earlyMergeGraph.sources 13 := by decide +kernel
    exact hmem
  have hbefore : earlyMergeGraph.MergedBefore 0 4 8 := ⟨13, by decide +kernel, .single hmerges⟩
  exact ⟨4, 8, by decide +kernel, .inr ⟨hbefore, by decide +kernel⟩⟩

/-- No mapping of the text repeats one of its own keys, and still the text is refused. -/
theorem earlyMerge_refused :
    (∀ id < earlyMergeGraph.nodes.size,
      (earlyMergeGraph.names (earlyMergeGraph.own id)).Nodup) ∧
      ∃ place name, Json.parseYaml earlyMerge =
        .error (.yaml (.here place (.duplicateKey name))) :=
  ⟨by decide +kernel,
    (parsed_document_merges earlyMerge_composed earlyMerge_regular).1.mpr earlyMerge_repeats⟩

end Yaml

end JsonSchema

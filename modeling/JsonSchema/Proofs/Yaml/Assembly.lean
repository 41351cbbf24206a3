import JsonSchema.Proofs.Yaml.Events
import JsonSchema.Proofs.Yaml.Partly
import JsonSchema.Proofs.Yaml.Places

/-!
# The nodes of a JSON value

The events of a JSON value make nodes that are built like the value. Each node leads to later ones
only, since a collection starts before what is in it.
-/

namespace JsonSchema.Yaml

open JsonReader (Part)

namespace YamlGraph

variable {g g' g'' : YamlGraph} {id inner : YamlId} {node : YamlNode}

/-! ## More nodes -/

theorem size_push (g : YamlGraph) (node : YamlNode) :
    (g.push node).nodes.size = g.nodes.size + 1 := Array.size_push node

theorem node_push : (g.push node).node id = if id = g.nodes.size then node else g.node id := by
  rw [push, YamlGraph.node, YamlGraph.node, Array.getD_eq_getD_getElem?,
    Array.getD_eq_getD_getElem?, Array.getElem?_push]
  split <;> simp

/-- The second graph has more nodes than the first one, and each of these leads to later ones. -/
structure Extends (g g' : YamlGraph) : Prop where
  size : g.nodes.size ≤ g'.nodes.size
  keeps : ∀ id < g.nodes.size, g'.node id = g.node id
  descends : ∀ id, g.nodes.size ≤ id → ∀ inner, g'.Leads id inner → id < inner

theorem leads_congr (h : g'.node id = g.node id) : g'.Leads id inner ↔ g.Leads id inner := by
  unfold Leads items entries
  rw [h]

theorem leads_sequence {items : List YamlId} (h : (g.node id).content = .sequence items) :
    g.Leads id inner ↔ inner ∈ items := by
  simp [Leads, YamlGraph.items, entries, h]

theorem leads_mapping {entries : List Entry} (h : (g.node id).content = .mapping entries) :
    g.Leads id inner ↔ ∃ entry ∈ entries, inner = entry.1 ∨ inner = entry.2 := by
  simp [Leads, YamlGraph.items, YamlGraph.entries, h]

theorem not_leads_scalar {text : String} (h : (g.node id).content = .scalar text) :
    ¬ g.Leads id inner := by
  simp [Leads, YamlGraph.items, entries, h]

namespace Extends

theorem refl (g : YamlGraph) : g.Extends g where
  size := Nat.le_refl _
  keeps := fun _ _ => rfl
  descends id hid inner hleads := by
    have hcontent : (g.node id).content = .scalar "" := by
      rw [node_of_ge hid]
      rfl
    exact absurd hleads (not_leads_scalar hcontent)

theorem trans (h : g.Extends g') (h' : g'.Extends g'') : g.Extends g'' where
  size := h.size.trans h'.size
  keeps id hid := by rw [h'.keeps id (Nat.lt_of_lt_of_le hid h.size), h.keeps id hid]
  descends id hid inner hleads := by
    by_cases hlt : id < g'.nodes.size
    · exact h.descends id hid inner ((leads_congr (h'.keeps id hlt)).mp hleads)
    · exact h'.descends id (Nat.not_lt.mp hlt) inner hleads

theorem push (hleads : ∀ inner, ¬ (g.push node).Leads g.nodes.size inner) :
    g.Extends (g.push node) where
  size := by rw [size_push]; exact Nat.le_succ _
  keeps id hid := by rw [node_push, if_neg hid.ne]
  descends id hid inner h := by
    rcases hid.eq_or_lt with rfl | hlt
    · exact absurd h (hleads inner)
    · exact (Extends.refl (g.push node)).descends id (by rw [size_push]; exact hlt) inner h

end Extends

/-- From this number on, another graph has the same nodes. -/
def AgreesFrom (lo : YamlId) (g G : YamlGraph) : Prop :=
  ∀ id, lo ≤ id → id < g.nodes.size → G.node id = g.node id

/-- The nodes from this number on make a node that is built like the value, whatever comes later. -/
structure Made (lo : YamlId) (g : YamlGraph) (json : Json) (id : YamlId) : Prop where
  above : lo ≤ id
  mirrors : ∀ G, g.AgreesFrom lo G → G.Mirrors (fun _ _ => True) json id

structure MadeKey (lo : YamlId) (g : YamlGraph) (name : String) (id : YamlId) : Prop where
  above : lo ≤ id
  name : ∀ G, g.AgreesFrom lo G → (G.node id).memberName? = .ok (some name)

variable {lo lo' : YamlId} {json : Json} {name : String}

theorem AgreesFrom.mono {G : YamlGraph} (h : g'.AgreesFrom lo G) (hlo : lo ≤ lo')
    (hextends : g.Extends g') : g.AgreesFrom lo' G := by
  intro id hid hlt
  rw [h id (hlo.trans hid) (Nat.lt_of_lt_of_le hlt hextends.size), hextends.keeps id hlt]

theorem Made.mono (h : g.Made lo' json id) (hlo : lo ≤ lo') (hextends : g.Extends g') :
    g'.Made lo json id :=
  ⟨hlo.trans h.above, fun G hG => h.mirrors G (hG.mono hlo hextends)⟩

theorem MadeKey.mono (h : g.MadeKey lo' name id) (hlo : lo ≤ lo') (hextends : g.Extends g') :
    g'.MadeKey lo name id :=
  ⟨hlo.trans h.above, fun G hG => h.name G (hG.mono hlo hextends)⟩

/-! ## Scalars and collections -/

section

variable {tag text : String} {place : Place} {content : Content}

theorem extends_scalar (g : YamlGraph) (tag : String) (place : Place) (text : String) :
    g.Extends (g.push ⟨tag, place, .scalar text⟩) :=
  .push fun _ => not_leads_scalar (by rw [node_push, if_pos rfl])

theorem AgreesFrom.node_push {G : YamlGraph} (h : (g.push node).AgreesFrom g.nodes.size G) :
    G.node g.nodes.size = node := by
  rw [h _ (Nat.le_refl _) (by rw [size_push]; exact Nat.lt_succ_self _), YamlGraph.node_push,
    if_pos rfl]

theorem made_scalar (g : YamlGraph) (tag : String) (place : Place) (text : String)
    (hflat : json.IsFlat) : (g.push ⟨tag, place, .scalar text⟩).Made g.nodes.size json g.nodes.size :=
  ⟨Nat.le_refl _, fun _ hG => .scalar (by rw [hG.node_push]) hflat trivial⟩

theorem madeKey_scalar (g : YamlGraph) (place : Place) (name : String) :
    (g.push ⟨Tag.str, place, .scalar name⟩).MadeKey g.nodes.size name g.nodes.size :=
  ⟨Nat.le_refl _, fun G hG => by rw [hG.node_push]; rfl⟩

theorem Extends.size_lt (h : (g.push node).Extends g') : g.nodes.size < g'.nodes.size := by
  have hsize := h.size
  rwa [size_push] at hsize

theorem Extends.setContent (h : (g.push node).Extends g')
    (hinner : ∀ inner, (g'.setContent g.nodes.size content).Leads g.nodes.size inner →
      g.nodes.size < inner) : g.Extends (g'.setContent g.nodes.size content) := by
  have hlt := h.size_lt
  refine ⟨by rw [size_setContent]; exact hlt.le, fun id hid => ?_, fun id hid inner hleads => ?_⟩
  · have hpush : id < (g.push node).nodes.size := by
      rw [size_push]
      exact Nat.lt_succ_of_lt hid
    rw [node_setContent hlt, if_neg hid.ne, h.keeps id hpush, node_push, if_neg hid.ne]
  · rcases hid.eq_or_lt with rfl | hid
    · exact hinner inner hleads
    · have hsame : (g'.setContent g.nodes.size content).node id = g'.node id := by
        rw [node_setContent hlt, if_neg hid.ne']
      exact h.descends id (by rw [size_push]; exact hid) inner ((leads_congr hsame).mp hleads)

theorem AgreesFrom.of_setContent {G : YamlGraph} (hid : id < g.nodes.size)
    (h : (g.setContent id content).AgreesFrom id G) :
    (G.node id).content = content ∧ g.AgreesFrom (id + 1) G := by
  refine ⟨?_, fun other hother hlt => ?_⟩
  · rw [h id (Nat.le_refl _) (by rwa [size_setContent]), node_setContent hid, if_pos rfl]
  · rw [h other (Nat.le_of_succ_le hother) (by rwa [size_setContent]), node_setContent hid,
      if_neg (Nat.lt_of_succ_le hother).ne']

theorem sequence_made {items : List Json} {ids : List YamlId} (h : (g.push node).Extends g')
    (hitems : List.Forall₂ (g'.Made (g.nodes.size + 1)) items ids) :
    g.Extends (g'.setContent g.nodes.size (.sequence ids)) ∧
      (g'.setContent g.nodes.size (.sequence ids)).Made g.nodes.size (.arr items) g.nodes.size := by
  have hlt := h.size_lt
  refine ⟨h.setContent fun inner hleads => ?_, Nat.le_refl _, fun G hG => ?_⟩
  · rw [leads_sequence (by rw [node_setContent hlt, if_pos rfl])] at hleads
    obtain ⟨index, hindex⟩ := List.getElem?_of_mem hleads
    obtain ⟨item, hitem⟩ := exists_getElem?_of_length hitems.length_eq.symm hindex
    exact (rel_of_getElem? hitems hitem hindex).above
  · obtain ⟨hcontent, hrest⟩ := hG.of_setContent hlt
    exact .sequence hcontent hitems.length_eq fun index value item hvalue hitem =>
      (rel_of_getElem? hitems hvalue hitem).mirrors G hrest

theorem mapping_made {members : Members Json} {entries : List Entry}
    (h : (g.push node).Extends g')
    (hmembers : List.Forall₂ (fun member entry => g'.MadeKey (g.nodes.size + 1) member.1 entry.1 ∧
      g'.Made (g.nodes.size + 1) member.2 entry.2) members entries) :
    g.Extends (g'.setContent g.nodes.size (.mapping entries)) ∧
      (g'.setContent g.nodes.size (.mapping entries)).Made g.nodes.size (.obj members)
        g.nodes.size := by
  have hlt := h.size_lt
  refine ⟨h.setContent fun inner hleads => ?_, Nat.le_refl _, fun G hG => ?_⟩
  · rw [leads_mapping (by rw [node_setContent hlt, if_pos rfl])] at hleads
    obtain ⟨entry, hentry, hinner⟩ := hleads
    obtain ⟨index, hindex⟩ := List.getElem?_of_mem hentry
    obtain ⟨member, hmember⟩ := exists_getElem?_of_length hmembers.length_eq.symm hindex
    obtain ⟨hkey, hvalue⟩ := rel_of_getElem? hmembers hmember hindex
    rcases hinner with rfl | rfl
    · exact hkey.above
    · exact hvalue.above
  · obtain ⟨hcontent, hrest⟩ := hG.of_setContent hlt
    exact .mapping hcontent hmembers.length_eq
      (fun index member entry hmember hentry =>
        (rel_of_getElem? hmembers hmember hentry).1.name G hrest)
      (fun index member entry hmember hentry =>
        (rel_of_getElem? hmembers hmember hentry).2.mirrors G hrest)

end

end YamlGraph

/-! ## Steps of the builder -/

namespace Builder

open YamlGraph (Extends Made MadeKey)

variable {b : Builder} {e : PlacedEvent} {inner : OpenNode} {outer : List OpenNode}

theorem step_scalar {plain : Bool} {text : String}
    (h : e.event = .scalar noProperties plain text) (b : Builder) : b.step e =
      .ok ({ b with graph :=
        (b.graph.push ⟨if plain then implicitTag text else Tag.str, e.place, .scalar text⟩) }.attach
          b.graph.nodes.size) := by
  rw [step, h]
  rfl

def opening (b : Builder) (tag : String) (content : Content) (place : Place) : Builder :=
  { b with
    graph := b.graph.push ⟨tag, place, content⟩
    opened := ⟨b.graph.nodes.size, content.kind, []⟩ :: b.opened }

theorem openNode_ok (hdepth : b.opened.length < yamlDepthLimit) (usual : String)
    (content : Content) (place : Place) :
    b.openNode noProperties usual content place = .ok (b.opening usual content place) := by
  simp only [openNode, add, noProperties, Except.ok_bind, Nat.not_le.mpr hdepth, if_false]
  rfl

theorem step_sequenceStart (h : e.event = .sequenceStart noProperties)
    (hdepth : b.opened.length < yamlDepthLimit) :
    b.step e = .ok (b.opening Tag.seq (.sequence []) e.place) := by
  rw [step, h]
  exact openNode_ok hdepth _ _ _

theorem step_mappingStart (h : e.event = .mappingStart noProperties)
    (hdepth : b.opened.length < yamlDepthLimit) :
    b.step e = .ok (b.opening Tag.map (.mapping []) e.place) := by
  rw [step, h]
  exact openNode_ok hdepth _ _ _

theorem step_collectionEnd (h : e.event = .collectionEnd) (b : Builder) :
    b.step e = .ok b.close := by
  rw [step, h]

def children (entries : List Entry) : List YamlId := entries.flatMap fun entry => [entry.1, entry.2]

theorem pairUp_children (entries : List Entry) : pairUp (children entries) = entries := by
  induction entries with
  | nil => rfl
  | cons first rest ih => rw [children, List.flatMap_cons, List.cons_append, List.cons_append,
      List.nil_append, pairUp, ← children, ih]

def adding (b : Builder) (g : YamlGraph) (ids : List YamlId) : Builder :=
  ids.foldl attach { b with graph := g }

@[simp] theorem graph_adding (b : Builder) (g : YamlGraph) (ids : List YamlId) :
    (b.adding g ids).graph = g := by
  have hgraph : ∀ c : Builder, (ids.foldl attach c).graph = c.graph := by
    induction ids with
    | nil => exact fun _ => rfl
    | cons id ids ih =>
      intro c
      rw [List.foldl_cons, ih, attach]
      split <;> rfl
  exact hgraph _

@[simp] theorem length_adding (b : Builder) (g : YamlGraph) (ids : List YamlId) :
    (b.adding g ids).opened.length = b.opened.length := by
  have hlength : ∀ c : Builder, (ids.foldl attach c).opened.length = c.opened.length := by
    induction ids with
    | nil => exact fun _ => rfl
    | cons id ids ih =>
      intro c
      rw [List.foldl_cons, ih, attach]
      split
      case h_1 h => rw [h]
      case h_2 h => rw [h]; rfl
  exact hlength _

theorem adding_adding (b : Builder) (g g' : YamlGraph) (ids ids' : List YamlId) :
    (b.adding g ids).adding g' ids' = b.adding g' (ids ++ ids') := by
  have hgraph : ∀ c : Builder, { ids.foldl attach c with graph := g' } =
      ids.foldl attach { c with graph := g' } := by
    induction ids with
    | nil => exact fun _ => rfl
    | cons id ids ih =>
      intro c
      rw [List.foldl_cons, List.foldl_cons, ih]
      congr 1
      unfold attach
      cases c.opened <;> rfl
  rw [adding, adding, adding, hgraph, List.foldl_append]

theorem adding_opening (b : Builder) (tag : String) (content : Content) (place : Place)
    (g : YamlGraph) (ids : List YamlId) : (b.opening tag content place).adding g ids =
      { b with
        graph := g
        opened := ⟨b.graph.nodes.size, content.kind, ids.reverse⟩ :: b.opened } := by
  have hadd : ∀ (done : List YamlId) (c : Builder),
      ids.foldl attach { c with opened := ⟨b.graph.nodes.size, content.kind, done⟩ :: b.opened } =
        { c with
          opened := ⟨b.graph.nodes.size, content.kind, ids.reverse ++ done⟩ :: b.opened } := by
    induction ids with
    | nil => exact fun _ _ => rfl
    | cons id ids ih =>
      intro done c
      rw [List.reverse_cons, List.append_assoc, List.singleton_append, ← ih (id :: done) c]
      rfl
  have hall := hadd [] { b with graph := g }
  rw [List.append_nil] at hall
  exact hall

theorem close_sequence (b : Builder) (place : Place) (g : YamlGraph) (ids : List YamlId) :
    ((b.opening Tag.seq (.sequence []) place).adding g ids).close =
      { b with graph := g.setContent b.graph.nodes.size (.sequence ids) }.attach
        b.graph.nodes.size := by
  rw [adding_opening, close]
  simp only [List.reverse_reverse]
  rfl

theorem close_mapping (b : Builder) (place : Place) (g : YamlGraph) (entries : List Entry) :
    ((b.opening Tag.map (.mapping []) place).adding g (children entries)).close =
      { b with graph := g.setContent b.graph.nodes.size (.mapping entries) }.attach
        b.graph.nodes.size := by
  rw [adding_opening, close]
  simp only [List.reverse_reverse, pairUp_children]
  rfl

/-- The events of a part are made into nodes that are built like the part. -/
def Assembles (limit : Nat) (part : Part) (events : List Event) : Prop :=
  ∀ (b : Builder) (placed : List PlacedEvent), placed.map (·.event) = events →
    b.opened.length + limit ≤ yamlDepthLimit → ∃ g, b.graph.Extends g ∧
      match part with
      | .value json => ∃ id, placed.foldlM step b = .ok (b.adding g [id]) ∧
          g.Made b.graph.nodes.size json id
      | .items items => ∃ ids, placed.foldlM step b = .ok (b.adding g ids).close ∧
          List.Forall₂ (g.Made b.graph.nodes.size) items ids
      | .members members => ∃ entries,
          placed.foldlM step b = .ok (b.adding g (children entries)).close ∧
          List.Forall₂ (fun member entry => g.MadeKey b.graph.nodes.size member.1 entry.1 ∧
            g.Made b.graph.nodes.size member.2 entry.2) members entries

section

variable {limit : Nat} {json : Json} {events : List Event} {items : List Json}
  {members : Members Json} {name : String}

theorem assembles_scalar {plain : Bool} {text : String} (hflat : json.IsFlat) :
    Assembles limit (.value json) [.scalar noProperties plain text] := by
  intro b placed hplaced hdepth
  obtain ⟨e, rfl, he⟩ := List.map_eq_singleton_iff.mp hplaced
  let tag := if plain then implicitTag text else Tag.str
  refine ⟨b.graph.push ⟨tag, e.place, .scalar text⟩, YamlGraph.extends_scalar _ _ _ _, _, ?_,
    YamlGraph.made_scalar _ _ _ _ hflat⟩
  rw [List.foldlM_cons, step_scalar he]
  rfl

theorem assembles_sequence (h : Assembles limit (.items items) events) :
    Assembles (limit + 1) (.value (.arr items)) (.sequenceStart noProperties :: events) := by
  intro b placed hplaced hdepth
  obtain ⟨e, rest, rfl, he, hrest⟩ := List.map_eq_cons_iff.mp hplaced
  obtain ⟨g, hextends, ids, hrun, hmade⟩ := h (b.opening Tag.seq (.sequence []) e.place) rest hrest
    (by simp only [opening, List.length_cons]; omega)
  obtain ⟨hextends', hmade'⟩ := YamlGraph.sequence_made hextends
    (by simpa only [opening, YamlGraph.size_push] using hmade)
  refine ⟨_, hextends', _, ?_, hmade'⟩
  rw [List.foldlM_cons, step_sequenceStart he (by omega), Except.ok_bind, hrun, close_sequence]
  rfl

theorem assembles_mapping (h : Assembles limit (.members members) events) :
    Assembles (limit + 1) (.value (.obj members)) (.mappingStart noProperties :: events) := by
  intro b placed hplaced hdepth
  obtain ⟨e, rest, rfl, he, hrest⟩ := List.map_eq_cons_iff.mp hplaced
  obtain ⟨g, hextends, entries, hrun, hmade⟩ := h (b.opening Tag.map (.mapping []) e.place) rest
    hrest (by simp only [opening, List.length_cons]; omega)
  obtain ⟨hextends', hmade'⟩ := YamlGraph.mapping_made hextends
    (by simpa only [opening, YamlGraph.size_push] using hmade)
  refine ⟨_, hextends', _, ?_, hmade'⟩
  rw [List.foldlM_cons, step_mappingStart he (by omega), Except.ok_bind, hrun, close_mapping]
  rfl

theorem run_end {placed : List PlacedEvent} (hplaced : placed.map (·.event) = [.collectionEnd])
    (b : Builder) : placed.foldlM step b = .ok (b.adding b.graph []).close := by
  obtain ⟨e, rfl, he⟩ := List.map_eq_singleton_iff.mp hplaced
  rw [List.foldlM_cons, step_collectionEnd he]
  rfl

theorem assembles_noItems : Assembles limit (.items []) [.collectionEnd] :=
  fun b _ hplaced _ => ⟨b.graph, .refl _, [], run_end hplaced b, .nil⟩

theorem assembles_noMembers : Assembles limit (.members []) [.collectionEnd] :=
  fun b _ hplaced _ => ⟨b.graph, .refl _, [], run_end hplaced b, .nil⟩

theorem assembles_item {more : List Event} (hitem : Assembles limit (.value json) events)
    (h : Assembles limit (.items items) more) :
    Assembles limit (.items (json :: items)) (events ++ more) := by
  intro b placed hplaced hdepth
  obtain ⟨first, rest, rfl, hfirst, hrest⟩ := List.map_eq_append_iff.mp hplaced
  obtain ⟨g, hextends, id, hrun, hmade⟩ := hitem b first hfirst hdepth
  obtain ⟨g', hextends', ids, hrun', hmade'⟩ := h (b.adding g [id]) rest hrest (by simpa using hdepth)
  rw [graph_adding] at hextends' hmade'
  refine ⟨g', hextends.trans hextends', id :: ids, ?_, .cons (hmade.mono (Nat.le_refl _) hextends')
    (hmade'.imp fun _ _ hmade => hmade.mono hextends.size (.refl _))⟩
  rw [List.foldlM_append, hrun, Except.ok_bind, hrun', adding_adding]
  rfl

theorem assembles_member {more : List Event} (hvalue : Assembles limit (.value json) events)
    (h : Assembles limit (.members members) more) :
    Assembles limit (.members ((name, json) :: members))
      (.scalar noProperties false name :: (events ++ more)) := by
  intro b placed hplaced hdepth
  obtain ⟨e, afterKey, rfl, he, hafter⟩ := List.map_eq_cons_iff.mp hplaced
  obtain ⟨first, rest, rfl, hfirst, hrest⟩ := List.map_eq_append_iff.mp hafter
  have hextends₀ := YamlGraph.extends_scalar b.graph Tag.str e.place name
  have hkey := YamlGraph.madeKey_scalar b.graph e.place name
  generalize hg₀ : b.graph.push ⟨Tag.str, e.place, .scalar name⟩ = g₀ at hextends₀ hkey
  obtain ⟨g, hextends, id, hrun, hmade⟩ :=
    hvalue (b.adding g₀ [b.graph.nodes.size]) first hfirst (by simpa using hdepth)
  rw [graph_adding] at hextends hmade
  rw [adding_adding] at hrun
  obtain ⟨g', hextends', entries, hrun', hmade'⟩ :=
    h (b.adding g ([b.graph.nodes.size] ++ [id])) rest hrest (by simpa using hdepth)
  rw [graph_adding] at hextends' hmade'
  have hsize := hextends₀.size.trans hextends.size
  refine ⟨g', hextends₀.trans (hextends.trans hextends'), (b.graph.nodes.size, id) :: entries, ?_,
    .cons ⟨hkey.mono (Nat.le_refl _) (hextends.trans hextends'), hmade.mono hextends₀.size hextends'⟩
      (hmade'.imp fun _ _ hmade =>
        ⟨hmade.1.mono hsize (.refl _), hmade.2.mono hsize (.refl _)⟩)⟩
  have hstep : b.step e = .ok (b.adding g₀ [b.graph.nodes.size]) := by
    rw [step_scalar he, ← hg₀]
    rfl
  rw [List.foldlM_cons, hstep, Except.ok_bind, List.foldlM_append, hrun, Except.ok_bind, hrun',
    adding_adding]
  rfl

theorem assembles_of_spelled {part : Part} {tokens : List Token}
    (h : Spelled limit part tokens events) : Assembles limit part events := by
  induction h with
  | scalar hflat => exact assembles_scalar hflat
  | emptySequence => exact assembles_sequence assembles_noItems
  | sequence _ ih => exact assembles_sequence ih
  | emptyMapping => exact assembles_mapping assembles_noMembers
  | mapping _ ih => exact assembles_mapping ih
  | lastItem _ ih => exact assembles_item ih assembles_noItems
  | nextItem _ _ ih ih' => exact assembles_item ih ih'
  | lastMember _ ih => exact assembles_member ih assembles_noMembers
  | nextMember _ _ ih ih' => exact assembles_member ih ih'

end

end Builder

/-! ## Whole documents -/

/-- The graph of a value has no cycles, and its root is built like the value. -/
theorem composed_of_spelled {limit : Nat} {json : Json} {tokens : List Token} {events : List Event}
    (h : Spelled limit (.value json) tokens events) (hlimit : limit ≤ yamlDepthLimit)
    {all : List PlacedEvent}
    (hall : all.map (·.event) = .documentStart :: (events ++ [.documentEnd, .streamEnd])) :
    ∃ g id, ComposedDocument.ofEvents ⟨all, none⟩ = .ok ⟨g, some id⟩ ∧
      g.Mirrors (fun _ _ => True) json id ∧ ∀ id inner, g.Leads id inner → id < inner := by
  obtain ⟨first, rest, rfl, hfirst, hrest⟩ := List.map_eq_cons_iff.mp hall
  obtain ⟨placed, ends, rfl, hplaced, hends⟩ := List.map_eq_append_iff.mp hrest
  obtain ⟨last, others, rfl, hlast, hothers⟩ := List.map_eq_cons_iff.mp hends
  obtain ⟨stop, rfl, hstop⟩ := List.map_eq_singleton_iff.mp hothers
  obtain ⟨g, hextends, id, hrun, hmade⟩ :=
    Builder.assembles_of_spelled h .start placed hplaced (by simpa [Builder.start] using hlimit)
  refine ⟨g, id, ?_, hmade.mirrors g fun _ _ _ => rfl,
    fun id inner => hextends.descends id (Nat.zero_le _) inner⟩
  have hstart : Builder.start.step first = .ok .start := by
    rw [Builder.step, hfirst]
    rfl
  have hend : ∀ (b : Builder), [last, stop].foldlM Builder.step b = .ok b := by
    intro b
    rw [List.foldlM_cons, Builder.step, hlast, Except.ok_bind, List.foldlM_cons, Builder.step, hstop]
    rfl
  rw [ComposedDocument.ofEvents, List.foldlM_cons, hstart, Except.ok_bind, List.foldlM_append, hrun,
    Except.ok_bind, hend]
  rfl

end JsonSchema.Yaml

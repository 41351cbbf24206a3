import JsonSchema.Proofs.Yaml.Expansion

/-!
# Graphs in between

The node of a mapping keeps what merging made of it, so the graph of a document changes while it is
read. A graph in between is described by the graph of the document and by what is merged so far.
-/

namespace JsonSchema.Yaml

open Relation (TransGen ReflTransGen)

namespace YamlNode

variable (node : YamlNode)

@[simp] theorem plain_content : node.plain.content = node.content := by
  unfold plain
  split <;> rfl

@[simp] theorem plain_place : node.plain.place = node.place := by
  unfold plain
  split <;> rfl

theorem plain_tag : node.plain.tag = if node.tag = Tag.value then Tag.str else node.tag := by
  unfold plain
  simp only [beq_iff_eq]
  split <;> rfl

theorem plain_tag_ne : node.plain.tag ≠ Tag.value := by
  rw [plain_tag]
  split
  · decide
  · assumption

end YamlNode

namespace YamlGraph

variable {G g g' : YamlGraph} {id inner : YamlId} {entry : Entry} {done busy : YamlId → Prop}
  {content : Content}

/-! ## Changed nodes -/

theorem node_setNode (node : YamlNode) : (g.setNode id node).node inner =
    if inner = id ∧ id < g.nodes.size then node else g.node inner := by
  unfold setNode YamlGraph.node
  rw [Array.getD_eq_getD_getElem?, Array.getD_eq_getD_getElem?, Array.getElem?_setIfInBounds]
  by_cases h : inner = id
  · subst h
    by_cases hlt : inner < g.nodes.size <;> simp [hlt]
  · simp [h, Ne.symm h]

@[simp] theorem size_setNode (node : YamlNode) : (g.setNode id node).nodes.size = g.nodes.size :=
  Array.size_setIfInBounds

@[simp] theorem size_setContent : (g.setContent id content).nodes.size = g.nodes.size :=
  size_setNode _

theorem node_setContent (hid : id < g.nodes.size) : (g.setContent id content).node inner =
    if inner = id then { g.node id with content } else g.node inner := by
  rw [setContent, node_setNode]
  simp [hid]

theorem plain_default : (default : YamlNode).plain = default := by decide

theorem node_plainKey : (g.plainKey entry).node inner =
    if inner = entry.1 then (g.node inner).plain else g.node inner := by
  unfold plainKey
  by_cases hid : entry.1 < g.nodes.size
  · by_cases hinner : inner = entry.1
    · subst hinner
      simp only [YamlNode.plain, if_true]
      split <;> simp [node_setNode, hid]
    · dsimp only
      split <;> simp [node_setNode, hinner]
  · have hdefault : g.node entry.1 = default := node_of_ge (Nat.not_lt.mp hid)
    have hsame : (if (g.node entry.1).tag == Tag.value then
        g.setNode entry.1 { g.node entry.1 with tag := Tag.str } else g) = g := by
      rw [if_neg (by rw [hdefault]; decide)]
    dsimp only
    rw [hsame]
    split
    · subst inner
      rw [hdefault, plain_default]
    · rfl

@[simp] theorem size_plainKey : (g.plainKey entry).nodes.size = g.nodes.size := by
  unfold plainKey
  dsimp only
  split <;> simp

theorem isMergeKey_plainKey (other : Entry) :
    (g.plainKey entry).isMergeKey other = g.isMergeKey other := by
  unfold isMergeKey
  rw [node_plainKey]
  split
  case isTrue =>
    rw [YamlNode.plain_tag]
    split
    case isTrue hvalue =>
      rw [hvalue]
      decide
    case isFalse => rfl
  case isFalse => rfl

/-! ## Graphs in between -/

/--
A graph in which the mappings in `done` are merged, compared with the graph as the document gives
it. The nodes of the mappings in `busy` may hold whatever merging needs.
-/
structure Partly (G : YamlGraph) (done busy : YamlId → Prop) (g : YamlGraph) : Prop where
  size : g.nodes.size = G.nodes.size
  place : ∀ id, (g.node id).place = (G.node id).place
  tag : ∀ id, (g.node id).tag = (G.node id).tag ∨
    (G.node id).tag = Tag.value ∧ (g.node id).tag = Tag.str
  kind : ∀ id, (g.node id).kind = (G.node id).kind
  content : ∀ id, ¬ busy id → ¬ done id → (g.node id).content = (G.node id).content
  expanded : ∀ id, ¬ busy id → done id → (g.node id).content = .mapping (G.expanded id)
  plain : ∀ id, done id → ∀ entry ∈ G.own id, (g.node entry.1).tag ≠ Tag.value
  closed : ∀ id source, done id → G.Merges id source → done source
  mapping : ∀ id, busy id ∨ done id → (G.node id).kind = .mapping

/-- What merging leaves as it is: mappings that are being merged, and keys that are plain. -/
structure Keeps (busy : YamlId → Prop) (g g' : YamlGraph) : Prop where
  content : ∀ id, busy id → (g'.node id).content = (g.node id).content
  plain : ∀ id, (g.node id).tag ≠ Tag.value → (g'.node id).tag ≠ Tag.value

theorem Keeps.refl (busy : YamlId → Prop) (g : YamlGraph) : Keeps busy g g :=
  ⟨fun _ _ => rfl, fun _ h => h⟩

theorem Keeps.trans {g'' : YamlGraph} (h : Keeps busy g g') (h' : Keeps busy g' g'') :
    Keeps busy g g'' :=
  ⟨fun id hid => (h'.content id hid).trans (h.content id hid),
    fun id hid => h'.plain id (h.plain id hid)⟩

theorem Keeps.mono {less : YamlId → Prop} (h : Keeps busy g g') (hless : ∀ id, less id → busy id) :
    Keeps less g g' :=
  ⟨fun id hid => h.content id (hless id hid), h.plain⟩

namespace Partly

theorem start (G : YamlGraph) : Partly G (fun _ => False) (fun _ => False) G where
  size := rfl
  place _ := rfl
  tag _ := .inl rfl
  kind _ := rfl
  content _ _ _ := rfl
  expanded _ _ h := h.elim
  plain _ h := h.elim
  closed _ _ h := h.elim
  mapping _ h := h.elim False.elim False.elim

theorem congr {done' : YamlId → Prop} (h : Partly G done busy g) (heq : ∀ id, done id ↔ done' id) :
    Partly G done' busy g := by
  have : done = done' := funext fun id => propext (heq id)
  exact this ▸ h

theorem isMergeKey (h : Partly G done busy g) (entry : Entry) :
    g.isMergeKey entry = G.isMergeKey entry := by
  unfold YamlGraph.isMergeKey
  rcases h.tag entry.1 with heq | ⟨hvalue, hstr⟩
  · rw [heq]
  · rw [hvalue, hstr]
    decide

theorem entries (h : Partly G done busy g) (hbusy : ¬ busy id) (hdone : ¬ done id) :
    g.entries id = G.entries id := by
  rw [YamlGraph.entries, h.content id hbusy hdone]
  rfl

theorem entries_done (h : Partly G done busy g) (hbusy : ¬ busy id) (hdone : done id) :
    g.entries id = G.expanded id := by
  rw [YamlGraph.entries, h.expanded id hbusy hdone]

theorem plainKey (h : Partly G done busy g) (entry : Entry) :
    Partly G done busy (g.plainKey entry) where
  size := size_plainKey.trans h.size
  place id := by
    rw [node_plainKey, ← h.place]
    split <;> simp
  tag id := by
    rw [node_plainKey]
    split
    case isTrue =>
      rw [YamlNode.plain_tag]
      split
      case isTrue hvalue =>
        rcases h.tag id with heq | ⟨-, hstr⟩
        · exact .inr ⟨heq ▸ hvalue, rfl⟩
        · rw [hvalue] at hstr
          exact absurd hstr (by decide)
      case isFalse => exact h.tag id
    case isFalse => exact h.tag id
  kind id := by
    rw [node_plainKey, ← h.kind]
    split <;> simp [YamlNode.kind]
  content id hbusy hdone := by
    rw [node_plainKey, ← h.content id hbusy hdone]
    split <;> simp
  expanded id hbusy hdone := by
    rw [node_plainKey, ← h.expanded id hbusy hdone]
    split <;> simp
  plain id hdone other hother := by
    rw [node_plainKey]
    split
    · exact YamlNode.plain_tag_ne _
    · exact h.plain id hdone other hother
  closed := h.closed
  mapping := h.mapping

theorem hold (h : Partly G done busy g) (hid : (G.node id).kind = .mapping) :
    Partly G done (fun other => busy other ∨ other = id) g where
  size := h.size
  place := h.place
  tag := h.tag
  kind := h.kind
  content other hbusy := h.content other (not_or.mp hbusy).1
  expanded other hbusy := h.expanded other (not_or.mp hbusy).1
  plain := h.plain
  closed := h.closed
  mapping := by
    rintro other ((hbusy | rfl) | hdone)
    · exact h.mapping other (.inl hbusy)
    · exact hid
    · exact h.mapping other (.inr hdone)

theorem setBusy (h : Partly G done busy g) (hid : busy id) (entries : List Entry) :
    Partly G done busy (g.setContent id (.mapping entries)) := by
  have hkind : (G.node id).kind = .mapping := h.mapping id (.inl hid)
  have hlt : id < g.nodes.size := h.size ▸ lt_of_kind (by simp [hkind])
  constructor
  case size => exact size_setContent.trans h.size
  case place =>
    intro other
    rw [node_setContent hlt, ← h.place]
    split <;> simp_all
  case tag =>
    intro other
    rw [node_setContent hlt]
    split
    case isTrue heq => exact heq ▸ h.tag id
    case isFalse => exact h.tag other
  case kind =>
    intro other
    rw [node_setContent hlt]
    split
    case isTrue heq => exact heq ▸ hkind.symm
    case isFalse => exact h.kind other
  case content =>
    intro other hbusy hdone
    rw [node_setContent hlt, if_neg (fun heq : other = id => hbusy (heq ▸ hid)),
      h.content other hbusy hdone]
  case expanded =>
    intro other hbusy hdone
    rw [node_setContent hlt, if_neg (fun heq : other = id => hbusy (heq ▸ hid)),
      h.expanded other hbusy hdone]
  case plain =>
    intro other hdone entry hentry
    rw [node_setContent hlt]
    split
    case isTrue heq => exact heq ▸ h.plain other hdone entry hentry
    case isFalse => exact h.plain other hdone entry hentry
  case closed => exact h.closed
  case mapping => exact h.mapping

theorem release (h : Partly G done (fun other => busy other ∨ other = id) g)
    (hcontent : (g.node id).content = .mapping (G.expanded id))
    (hsources : ∀ source, G.Merges id source → done source)
    (hplain : ∀ entry ∈ G.own id, (g.node entry.1).tag ≠ Tag.value) :
    Partly G (fun other => done other ∨ other = id) busy g where
  size := h.size
  place := h.place
  tag := h.tag
  kind := h.kind
  content other hbusy hdone := by
    rw [not_or] at hdone
    exact h.content other (by simp [hbusy, hdone.2]) hdone.1
  expanded other hbusy hdone := by
    by_cases heq : other = id
    · rw [heq, hcontent]
    · exact h.expanded other (by simp [hbusy, heq]) (hdone.resolve_right heq)
  plain other hdone entry hentry := by
    rcases hdone with hdone | rfl
    · exact h.plain other hdone entry hentry
    · exact hplain entry hentry
  closed := by
    rintro other source (hdone | rfl) hmerges
    · exact .inl (h.closed other source hdone hmerges)
    · exact .inl (hsources source hmerges)
  mapping := by
    rintro other (hbusy | hdone | rfl)
    · exact h.mapping other (.inl (.inl hbusy))
    · exact h.mapping other (.inr hdone)
    · exact h.mapping other (.inl (.inr rfl))

end Partly

theorem Partly.filter_isMergeKey (h : Partly G done busy g) (list : List Entry) :
    list.filter g.isMergeKey = list.filter G.isMergeKey :=
  List.filter_congr fun entry _ => h.isMergeKey entry

/-- Whatever is merged into a merged mapping is merged. -/
theorem Partly.reached {source : YamlId} (h : Partly G done busy g) (hid : done id)
    (hreach : ReflTransGen G.Merges id source) : done source := by
  induction hreach with
  | refl => exact hid
  | tail _ hmerges ih => exact h.closed _ _ ih hmerges

theorem tag_setContent (hid : id < g.nodes.size) :
    ((g.setContent id content).node inner).tag = (g.node inner).tag := by
  rw [node_setContent hid]
  split
  case isTrue heq => rw [heq]
  case isFalse => rfl

theorem Keeps.setContent (hid : ¬ busy id) (hlt : id < g.nodes.size) :
    Keeps busy g (g.setContent id content) where
  content other hother := by
    rw [node_setContent hlt, if_neg fun heq : other = id => hid (heq ▸ hother)]
  plain other hother := by rwa [tag_setContent hlt]

/-! ## Plain keys -/

theorem isMergeKey_plainKeys (entries : List Entry) (other : Entry) :
    (entries.foldl plainKey g).isMergeKey other = g.isMergeKey other := by
  induction entries generalizing g with
  | nil => rfl
  | cons entry rest ih => exact (ih (g := g.plainKey entry)).trans (isMergeKey_plainKey other)

theorem Keeps.plainKeys (busy : YamlId → Prop) (g : YamlGraph) (entries : List Entry) :
    Keeps busy g (entries.foldl plainKey g) := by
  induction entries generalizing g with
  | nil => exact .refl busy g
  | cons entry rest ih =>
    refine Keeps.trans ⟨fun id _ => ?_, fun id hid => ?_⟩ (ih (g.plainKey entry))
    · rw [node_plainKey]
      split <;> simp
    · rw [node_plainKey]
      split
      · exact YamlNode.plain_tag_ne _
      · exact hid

theorem tag_plainKeys {entries : List Entry} (h : entry ∈ entries) :
    ((entries.foldl plainKey g).node entry.1).tag ≠ Tag.value := by
  induction entries generalizing g with
  | nil => simp at h
  | cons first rest ih =>
    rcases List.mem_cons.mp h with rfl | h
    · refine (Keeps.plainKeys (fun _ => False) (g.plainKey entry) rest).plain _ ?_
      rw [node_plainKey, if_pos rfl]
      exact YamlNode.plain_tag_ne _
    · exact ih h

theorem Partly.plainKeys (h : Partly G done busy g) (entries : List Entry) :
    Partly G done busy (entries.foldl YamlGraph.plainKey g) := by
  induction entries generalizing g with
  | nil => exact h
  | cons entry rest ih => exact ih (h.plainKey entry)

end YamlGraph

end JsonSchema.Yaml

import JsonSchema.Proofs.Yaml.Merging
import Mathlib.Data.List.Nodup

/-!
# The order of reading

The collections of a document are read in the order in which they are met, the root first. So the
graph alone says which mappings are merged already when one of them is read, and which repeated
names are noticed.
-/

namespace JsonSchema.Yaml

open Relation (TransGen ReflTransGen)

namespace YamlGraph

/-! ## The order -/

def children (g : YamlGraph) (id : YamlId) : List YamlId :=
  match (g.node id).content with
  | .scalar _ => []
  | .sequence items => items
  | .mapping _ => (g.expanded id).flatMap fun entry => [entry.1, entry.2]

/-- Puts a collection behind those that are known, unless it is one of them. -/
def meet (g : YamlGraph) (known : List YamlId) (id : YamlId) : List YamlId :=
  if (g.node id).kind = .scalar ∨ id ∈ known then known else known ++ [id]

/-- The collections that are known after `n` of them have been read, in their order. -/
def knownAfter (g : YamlGraph) (root : YamlId) : (n : Nat) → List YamlId
  | 0 => g.meet [] root
  | n + 1 =>
    let known := g.knownAfter root n
    match known[n]? with
    | some id => (g.children id).foldl g.meet known
    | none => known

/-- The mapping was merged into one of the first `n` collections. -/
def MergedBefore (g : YamlGraph) (root : YamlId) (n : Nat) (id : YamlId) : Prop :=
  ∃ earlier ∈ (g.knownAfter root n).take n, TransGen g.Merges earlier id

/--
The collection that is read after `n` others repeats a name: one of its own keys, or any key that
it holds by now, if it was merged before.
-/
def RepeatsAt (g : YamlGraph) (root : YamlId) (n : Nat) : Prop :=
  ∃ id, (g.knownAfter root n)[n]? = some id ∧
    (¬ (g.names (g.own id)).Nodup ∨
      g.MergedBefore root n id ∧ ¬ (g.names (g.expanded id)).Nodup)

/-- A collection repeats a name when it is read. -/
def Repeats (g : YamlGraph) (root : YamlId) : Prop := ∃ n, g.RepeatsAt root n

/-- The value of a node in the end; the nodes inside it are nodes again. -/
def valueAt (g : YamlGraph) (id : YamlId) : YamlValue :=
  match (g.node id).content with
  | .scalar _ => .scalar ((g.node id).plain.scalar?.getD .null)
  | .sequence items =>
    if KnownTag.ofText? (g.node id).tag = some (.collection .sequence) then .sequence items
    else .pairs items.length
  | .mapping _ => .mapping (g.members id)

variable {G : YamlGraph} {root id other : YamlId} {known ids : List YamlId} {n : Nat}

theorem prefix_meet : known <+: G.meet known other := by
  unfold meet
  split
  · exact List.prefix_rfl
  · exact List.prefix_append known [other]

theorem prefix_foldl_meet : known <+: ids.foldl G.meet known := by
  induction ids generalizing known with
  | nil => exact List.prefix_rfl
  | cons first rest ih => exact prefix_meet.trans ih

theorem meet_scalar (h : (G.node id).kind = .scalar) : G.meet known id = known :=
  if_pos (.inl h)

theorem meet_known (h : id ∈ known) : G.meet known id = known := if_pos (.inr h)

theorem knownAfter_succ (h : (G.knownAfter root n)[n]? = some id) :
    G.knownAfter root (n + 1) = (G.children id).foldl G.meet (G.knownAfter root n) := by
  rw [knownAfter]
  simp only [h]

/-- Once all known collections are read, no others are met. -/
theorem knownAfter_of_le (h : (G.knownAfter root n).length ≤ n) (more : Nat) :
    G.knownAfter root (n + more) = G.knownAfter root n := by
  induction more with
  | zero => rfl
  | succ more ih =>
    have hnone : (G.knownAfter root n)[n + more]? = none := by
      rw [List.getElem?_eq_none_iff]
      omega
    rw [← Nat.add_assoc, knownAfter]
    simp only [ih, hnone]

/-! ## Scalars -/

theorem scalar?_eq_some {node : YamlNode} {value : ScalarValue} (h : node.scalar? = some value) :
    ∃ text tag, node.content = .scalar text ∧ KnownTag.ofText? node.tag = some (.scalar tag) ∧
      tag.read false node.place text = .ok value := by
  unfold YamlNode.scalar? at h
  split at h
  case h_1 text tag hcontent htag =>
    exact ⟨text, tag, hcontent, htag, Except.toOption_eq_some.mp h⟩
  case h_2 => cases h

theorem tag_value_unknown : KnownTag.ofText? Tag.value = none := by decide

theorem plain_of_known {node : YamlNode} {tag : KnownTag}
    (h : KnownTag.ofText? node.tag = some tag) : node.plain = node := by
  refine if_neg fun hvalue => ?_
  rw [beq_iff_eq.mp hvalue, tag_value_unknown] at h
  cases h

theorem lt_of_scalar? {value : ScalarValue} (h : (G.node id).plain.scalar? = some value) :
    id < G.nodes.size := by
  by_contra hge
  rw [node_of_ge (Nat.not_lt.mp hge)] at h
  revert h
  rw [plain_default]
  have hnone : (default : YamlNode).scalar? = none := by decide
  simp [hnone]

theorem kind_of_scalar? {value : ScalarValue} (h : (G.node id).plain.scalar? = some value) :
    (G.node id).kind = .scalar := by
  obtain ⟨text, -, hcontent, -⟩ := scalar?_eq_some h
  rw [YamlNode.plain_content] at hcontent
  exact congrArg Content.kind hcontent

theorem scalar_of_fits (h : G.fits id = true) (hkind : (G.node id).kind = .scalar) :
    ∃ value json, (G.node id).plain.scalar? = some value ∧ value.json? = some json ∧
      (G.node id).tag ≠ Tag.value := by
  unfold fits at h
  unfold YamlNode.kind Content.kind at hkind
  split at hkind
  case h_1 text hcontent =>
    simp only [hcontent] at h
    obtain ⟨json, hjson⟩ := Option.isSome_iff_exists.mp h
    obtain ⟨value, hvalue, hjson⟩ := Option.bind_eq_some_iff.mp hjson
    obtain ⟨-, tag, -, htag, -⟩ := scalar?_eq_some hvalue
    refine ⟨value, json, ?_, hjson, fun heq => ?_⟩
    · rw [plain_of_known htag, hvalue]
    · rw [heq, tag_value_unknown] at htag
      cases htag
  case h_2 => cases hkind
  case h_3 => cases hkind

theorem collection_of_fits (h : G.fits id = true) (hkind : (G.node id).kind ≠ .scalar) :
    ∃ tag, KnownTag.ofText? (G.node id).tag = some (.collection tag) := by
  unfold fits at h
  dsimp only at h
  split at h
  case h_1 text hcontent =>
    exact absurd (congrArg Content.kind hcontent) hkind
  case h_2 items hcontent =>
    simp only [Bool.or_eq_true, Bool.and_eq_true, beq_iff_eq] at h
    rcases h with h | h
    · exact ⟨.sequence, h⟩
    · exact ⟨.pairs, h.1⟩
  case h_3 => exact ⟨.mapping, beq_iff_eq.mp h⟩

end YamlGraph

end JsonSchema.Yaml

import JsonSchema.Proofs.Json.Members
import JsonSchema.Yaml.Value
import Mathlib.Data.Finset.Card
import Mathlib.Data.Finset.Range
import Mathlib.Logic.Relation

/-!
# What mappings stand for

The entries of a mapping with all merge keys replaced, as the graph of a document gives them before
any of its values is made. The mappings behind a merge key are its sources, and a source that comes
first gives the value of a key.
-/

namespace JsonSchema.Yaml

open Relation (TransGen ReflTransGen)

/-! ## Scalars -/

def YamlNode.scalar? (node : YamlNode) : Option ScalarValue :=
  match node.content, KnownTag.ofText? node.tag with
  | .scalar text, some (.scalar tag) => (tag.read false node.place text).toOption
  | _, _ => none

/-- A node as the key of a mapping: the tag of a default value counts as that of a string. -/
def YamlNode.plain (node : YamlNode) : YamlNode :=
  if node.tag == Tag.value then { node with tag := Tag.str } else node

def ScalarValue.json? : ScalarValue → Option Json
  | .null => some .null
  | .bool b => some (.bool b)
  | .int n => some (.int n)
  | .float (.finite x) => some (.float x)
  | .str s => some (.str s)
  | _ => none

namespace YamlGraph

/-! ## Entries -/

def keyName? (g : YamlGraph) (key : YamlId) : Option String :=
  (g.node key).plain.scalar?.bind (·.name.toOption)

def items (g : YamlGraph) (id : YamlId) : List YamlId :=
  match (g.node id).content with
  | .sequence items => items
  | _ => []

def own (g : YamlGraph) (id : YamlId) : List Entry := (g.entries id).filter (!g.isMergeKey ·)

def merged (g : YamlGraph) (id : YamlId) : List YamlId :=
  match (g.node id).content with
  | .mapping _ => [id]
  | .sequence items => items
  | .scalar _ => []

def sources (g : YamlGraph) (id : YamlId) : List YamlId :=
  ((g.entries id).filter g.isMergeKey).flatMap (g.merged ·.2)

/-- A mapping is merged into another one. -/
def Merges (g : YamlGraph) (id source : YamlId) : Prop := source ∈ g.sources id

/-- The entries of a mapping whose merges nest at most `fuel` deep; of a name the last one counts. -/
def expandWithin (g : YamlGraph) : (fuel : Nat) → YamlId → List Entry
  | 0, _ => []
  | fuel + 1, id => (g.sources id).reverse.flatMap (g.expandWithin fuel) ++ g.own id

/-- The entries of a mapping behind those of all mappings that are merged into it. -/
def expanded (g : YamlGraph) (id : YamlId) : List Entry := g.expandWithin (g.nodes.size + 1) id

def names (g : YamlGraph) (entries : List Entry) : List String :=
  entries.map fun entry => (g.keyName? entry.1).getD ""

inductive HasKey (g : YamlGraph) : YamlId → String → Prop
  | own {id : YamlId} {name : String} {entry : Entry} (hentry : entry ∈ g.own id)
      (hname : g.keyName? entry.1 = some name) : HasKey g id name
  | merged {id source : YamlId} {name : String} (hsource : source ∈ g.sources id)
      (h : HasKey g source name) : HasKey g id name

/-- The value of a key: that of its last own entry, else that of the first source that has it. -/
inductive Gives (g : YamlGraph) : YamlId → String → YamlId → Prop
  | own {id key value : YamlId} {name : String} {before after : List Entry}
      (hentry : g.own id = before ++ (key, value) :: after) (hname : g.keyName? key = some name)
      (hlast : ∀ entry ∈ after, g.keyName? entry.1 ≠ some name) : Gives g id name value
  | merged {id source value : YamlId} {name : String} {before after : List YamlId}
      (hown : ∀ entry ∈ g.own id, g.keyName? entry.1 ≠ some name)
      (hsource : g.sources id = before ++ source :: after)
      (hfirst : ∀ other ∈ before, ¬ g.HasKey other name) (h : Gives g source name value) :
      Gives g id name value

/-! ## Regular documents -/

/-- Whether a node has a value that JSON has too, the nodes inside it apart. -/
def fits (g : YamlGraph) (id : YamlId) : Bool :=
  let node := g.node id
  match node.content with
  | .scalar _ => (node.scalar?.bind ScalarValue.json?).isSome
  | .sequence items =>
    KnownTag.ofText? node.tag == some (.collection .sequence) ||
      KnownTag.ofText? node.tag == some (.collection .pairs) && items.isEmpty
  | .mapping _ => KnownTag.ofText? node.tag == some (.collection .mapping)

def isMergeable (g : YamlGraph) (id : YamlId) : Bool :=
  match (g.node id).content with
  | .mapping _ => true
  | .sequence items => items.all fun item => (g.node item).kind == .mapping
  | .scalar _ => false

/-- The node is an item of a sequence, or a key or a value of a mapping. -/
def Leads (g : YamlGraph) (id inner : YamlId) : Prop :=
  inner ∈ g.items id ∨ ∃ entry ∈ g.entries id, inner = entry.1 ∨ inner = entry.2

/--
A document without cycles, with keys that have names and values that JSON has, and with one merge
key at most in a mapping, behind which there are mappings.
-/
structure Regular (g : YamlGraph) (root : YamlId) : Prop where
  root : g.fits root = true
  items : ∀ id, ∀ item ∈ g.items id, g.fits item = true
  keys : ∀ id, ∀ entry ∈ g.own id, (g.keyName? entry.1).isSome = true
  values : ∀ id, ∀ entry ∈ g.own id, g.fits entry.2 = true
  single : ∀ id, ((g.entries id).filter g.isMergeKey).length ≤ 1
  merges : ∀ id, ∀ entry ∈ g.entries id, g.isMergeKey entry = true → g.isMergeable entry.2 = true
  acyclic : ∀ id, ¬ TransGen g.Leads id id

/-- Whether a node has what regular documents have; `rank` is less for the nodes inside a node. -/
def isRegularAt (g : YamlGraph) (rank : YamlId → Nat) (id : YamlId) : Bool :=
  (g.items id).all (fun item => g.fits item && decide (rank item < rank id)) &&
    (g.entries id).all (fun entry =>
      decide (rank entry.1 < rank id) && decide (rank entry.2 < rank id) &&
        if g.isMergeKey entry then g.isMergeable entry.2
        else (g.keyName? entry.1).isSome && g.fits entry.2) &&
    decide (((g.entries id).filter g.isMergeKey).length ≤ 1)

variable {g : YamlGraph} {root id inner source key value : YamlId} {name : String}

/-! ## Nodes of a graph -/

theorem node_of_ge (h : g.nodes.size ≤ id) : g.node id = default := by
  rw [node, Array.getD_eq_getD_getElem?, Array.getElem?_eq_none h]
  rfl

theorem lt_of_kind (h : (g.node id).kind ≠ .scalar) : id < g.nodes.size := by
  by_contra hge
  rw [node_of_ge (Nat.not_lt.mp hge)] at h
  exact h rfl

theorem lt_of_fits (h : g.fits id = true) : id < g.nodes.size := by
  by_contra hge
  rw [fits, node_of_ge (Nat.not_lt.mp hge)] at h
  revert h
  decide

theorem entries_eq (h : (g.node id).kind = .mapping) :
    (g.node id).content = .mapping (g.entries id) := by
  unfold entries
  unfold YamlNode.kind Content.kind at h
  split at h <;> simp_all

theorem kind_of_entry {entry : Entry} (h : entry ∈ g.entries id) : (g.node id).kind = .mapping := by
  unfold entries at h
  unfold YamlNode.kind Content.kind
  split at h <;> simp_all

theorem mem_entries_of_own {entry : Entry} (h : entry ∈ g.own id) : entry ∈ g.entries id :=
  (List.mem_filter.mp h).1

theorem regular_of_checked (rank : YamlId → Nat) (hroot : g.fits root = true)
    (hchecked : ∀ id < g.nodes.size, g.isRegularAt rank id = true) : g.Regular root := by
  have hall : ∀ id, g.isRegularAt rank id = true := by
    intro id
    by_cases hid : id < g.nodes.size
    · exact hchecked id hid
    · rw [isRegularAt, items, entries, node_of_ge (Nat.not_lt.mp hid)]
      rfl
  simp only [isRegularAt, Bool.and_eq_true, List.all_eq_true, decide_eq_true_eq] at hall
  have hown : ∀ id, ∀ entry ∈ g.own id,
      (g.keyName? entry.1).isSome = true ∧ g.fits entry.2 = true := by
    intro id entry hentry
    have hkey : g.isMergeKey entry = false := by simpa using (List.mem_filter.mp hentry).2
    simpa [hkey] using ((hall id).1.2 entry (mem_entries_of_own hentry)).2
  have hleads : ∀ id inner, g.Leads id inner → rank inner < rank id := by
    rintro id inner (hitem | ⟨entry, hentry, rfl | rfl⟩)
    · exact ((hall id).1.1 inner hitem).2
    · exact ((hall id).1.2 entry hentry).1.1
    · exact ((hall id).1.2 entry hentry).1.2
  have hrank : ∀ id inner, TransGen g.Leads id inner → rank inner < rank id := by
    intro id inner h
    induction h with
    | single h => exact hleads _ _ h
    | tail _ h ih => exact (hleads _ _ h).trans ih
  exact {
    root := hroot
    items := fun id item hitem => ((hall id).1.1 item hitem).1
    keys := fun id entry hentry => (hown id entry hentry).1
    values := fun id entry hentry => (hown id entry hentry).2
    single := fun id => (hall id).2
    merges := fun id entry hentry hkey => by simpa [hkey] using ((hall id).1.2 entry hentry).2
    acyclic := fun id h => Nat.lt_irrefl _ (hrank id id h) }

/-! ## Sources -/

theorem mem_sources : source ∈ g.sources id ↔
    ∃ entry ∈ g.entries id, g.isMergeKey entry = true ∧ source ∈ g.merged entry.2 := by
  simp [sources, List.mem_flatMap, List.mem_filter, and_assoc]

theorem kind_of_source (hg : g.Regular root) (h : source ∈ g.sources id) :
    (g.node source).kind = .mapping := by
  obtain ⟨entry, hentry, hkey, hmem⟩ := mem_sources.mp h
  have hmergeable := hg.merges id entry hentry hkey
  unfold isMergeable at hmergeable
  unfold merged at hmem
  split at hmem
  case h_1 entries hcontent =>
    obtain rfl := List.mem_singleton.mp hmem
    exact congrArg Content.kind hcontent
  case h_2 items hcontent =>
    rw [hcontent] at hmergeable
    simpa using List.all_eq_true.mp hmergeable source hmem
  case h_3 => simp at hmem

theorem leads_of_source (h : source ∈ g.sources id) : TransGen g.Leads id source := by
  obtain ⟨entry, hentry, -, hmem⟩ := mem_sources.mp h
  have hvalue : g.Leads id entry.2 := .inr ⟨entry, hentry, .inr rfl⟩
  unfold merged at hmem
  split at hmem
  case h_1 =>
    obtain rfl := List.mem_singleton.mp hmem
    exact .single hvalue
  case h_2 items hcontent =>
    refine TransGen.tail (.single hvalue) (.inl ?_)
    rwa [YamlGraph.items, hcontent]
  case h_3 => simp at hmem

theorem ne_of_merges (hg : g.Regular root) (h : TransGen g.Merges id source) : id ≠ source := by
  rintro rfl
  exact hg.acyclic id (TransGen.closed (fun _ _ => leads_of_source) _ _ h)

/-! ## How deep a document nests -/

open Classical in
noncomputable def rank (g : YamlGraph) (id : YamlId) : Nat :=
  ((Finset.range g.nodes.size).filter fun inner => TransGen g.Leads id inner).card

open Classical in
theorem rank_le (g : YamlGraph) (id : YamlId) : g.rank id ≤ g.nodes.size := by
  unfold rank
  exact (Finset.card_filter_le _ _).trans_eq (Finset.card_range _)

open Classical in
theorem rank_lt (hg : g.Regular root) (h : TransGen g.Leads id inner)
    (hinner : inner < g.nodes.size) : g.rank inner < g.rank id := by
  refine Finset.card_lt_card (Finset.ssubset_iff_of_subset ?_ |>.mpr ⟨inner, ?_, ?_⟩)
  · exact Finset.monotone_filter_right _ fun other _ hother => h.trans hother
  · exact Finset.mem_filter.mpr ⟨Finset.mem_range.mpr hinner, h⟩
  · exact fun hmem => hg.acyclic inner (Finset.mem_filter.mp hmem).2

theorem rank_source (hg : g.Regular root) (h : source ∈ g.sources id) :
    g.rank source < g.rank id := by
  have hkind := kind_of_source hg h
  exact rank_lt hg (leads_of_source h) (lt_of_kind (by simp [hkind]))

/-! ## Expansion -/

theorem expandWithin_eq (hg : g.Regular root) {fuel fuel' : Nat} (hfuel : g.rank id < fuel)
    (hfuel' : g.rank id < fuel') : g.expandWithin fuel id = g.expandWithin fuel' id := by
  -- On the fuel: the sources of a mapping nest less deep than the mapping itself.
  induction fuel generalizing fuel' id with
  | zero => omega
  | succ fuel ih =>
    cases fuel' with
    | zero => omega
    | succ fuel' =>
      simp only [expandWithin, List.append_cancel_right_eq]
      refine List.flatMap_congr fun source hsource => ?_
      have hrank := rank_source hg (List.mem_reverse.mp hsource)
      exact ih (by omega) (by omega)

theorem expanded_eq (hg : g.Regular root) (id : YamlId) :
    g.expanded id = (g.sources id).reverse.flatMap g.expanded ++ g.own id := by
  unfold expanded
  rw [expandWithin, List.append_cancel_right_eq]
  refine List.flatMap_congr fun source hsource => ?_
  have hrank := rank_source hg (List.mem_reverse.mp hsource)
  have hsize := rank_le g id
  exact expandWithin_eq hg (by omega) (by omega)

theorem mem_expanded (hg : g.Regular root) {entry : Entry} (h : entry ∈ g.expanded id) :
    ∃ source, ReflTransGen g.Merges id source ∧
      entry ∈ g.own source := by
  induction hrank : g.rank id using Nat.strong_induction_on generalizing id with
  | _ rank ih =>
    rw [expanded_eq hg, List.mem_append, List.mem_flatMap] at h
    rcases h with ⟨source, hsource, hmem⟩ | hown
    · replace hsource := List.mem_reverse.mp hsource
      obtain ⟨inner, hinner, hown⟩ := ih _ (hrank ▸ rank_source hg hsource) hmem rfl
      exact ⟨inner, .head hsource hinner, hown⟩
    · exact ⟨id, .refl, hown⟩

/-! ## Members -/

def lastOf (g : YamlGraph) (name : String) (entries : List Entry) : Option YamlId :=
  (entries.reverse.find? fun entry => g.keyName? entry.1 == some name).map (·.2)

def putEntry (g : YamlGraph) (members : Members YamlId) (entry : Entry) : Members YamlId :=
  members.put ((g.keyName? entry.1).getD "") entry.2

/-- The members of a mapping: a name keeps its place, and its last entry gives the value. -/
def members (g : YamlGraph) (id : YamlId) : Members YamlId := (g.expanded id).foldl g.putEntry []

theorem lastOf_append (before after : List Entry) :
    g.lastOf name (before ++ after) = (g.lastOf name after).or (g.lastOf name before) := by
  rw [lastOf, List.reverse_append, List.find?_append, Option.map_or]
  rfl

theorem lastOf_flatMap (ids : List YamlId) (f : YamlId → List Entry) :
    g.lastOf name (ids.reverse.flatMap f) = ids.findSome? fun id => g.lastOf name (f id) := by
  rw [lastOf, List.reverse_flatMap, List.reverse_reverse, List.find?_flatMap, List.map_findSome?]
  rfl

theorem lastOf_eq_none_iff {entries : List Entry} : g.lastOf name entries = none ↔
    ∀ entry ∈ entries, g.keyName? entry.1 ≠ some name := by
  simp [lastOf]

theorem lastOf_expanded (hg : g.Regular root) : g.lastOf name (g.expanded id) =
    (g.lastOf name (g.own id)).or
      ((g.sources id).findSome? fun source => g.lastOf name (g.expanded source)) := by
  rw [expanded_eq hg, lastOf_append, lastOf_flatMap]

theorem hasKey_iff (hg : g.Regular root) :
    g.HasKey id name ↔ (g.lastOf name (g.expanded id)).isSome = true := by
  constructor
  · intro h
    induction h with
    | own hentry hname =>
      rw [lastOf_expanded hg, Option.isSome_or, Bool.or_eq_true]
      refine .inl (Option.isSome_iff_ne_none.mpr fun hnone => ?_)
      exact lastOf_eq_none_iff.mp hnone _ hentry hname
    | merged hsource _ ih =>
      rw [lastOf_expanded hg, Option.isSome_or, Bool.or_eq_true]
      exact .inr (List.findSome?_isSome_iff.mpr ⟨_, hsource, ih⟩)
  · intro h
    obtain ⟨value, hvalue⟩ := Option.isSome_iff_exists.mp h
    have hsome : ∃ entry ∈ g.expanded id, g.keyName? entry.1 = some name := by
      by_contra hnone
      rw [lastOf_eq_none_iff.mpr (by simpa using hnone)] at hvalue
      cases hvalue
    obtain ⟨entry, hentry, hname⟩ := hsome
    obtain ⟨source, hsource, hown⟩ := mem_expanded hg hentry
    clear h hvalue hentry
    induction hsource using ReflTransGen.head_induction_on with
    | refl => exact .own hown hname
    | head hmerges _ ih => exact .merged hmerges ih

/-- What counts in the expanded mapping is what the mapping gives. -/
theorem gives_of_lastOf (hg : g.Regular root) (h : g.lastOf name (g.expanded id) = some value) :
    g.Gives id name value := by
  induction hrank : g.rank id using Nat.strong_induction_on generalizing id with
  | _ rank ih =>
    rw [lastOf_expanded hg, Option.or_eq_some_iff] at h
    rcases h with hown | ⟨hnone, hsource⟩
    · obtain ⟨⟨key, value⟩, hfind, rfl⟩ := Option.map_eq_some_iff.mp hown
      obtain ⟨hname, before, after, hreverse, hlast⟩ := List.find?_eq_some_iff_append.mp hfind
      have hentry : g.own id = after.reverse ++ (key, value) :: before.reverse := by
        rw [← List.reverse_reverse (g.own id), hreverse]
        simp
      refine .own hentry (by simpa using hname) fun entry hmem => ?_
      simpa using hlast entry (List.mem_reverse.mp hmem)
    · obtain ⟨before, source, after, hsources, hvalue, hfirst⟩ :=
        List.findSome?_eq_some_iff.mp hsource
      have hmem : source ∈ g.sources id := by
        rw [hsources]
        simp
      refine .merged (lastOf_eq_none_iff.mp hnone) hsources (fun other hother hkey => ?_)
        (ih _ (hrank ▸ rank_source hg hmem) hvalue rfl)
      rw [hasKey_iff hg, hfirst other hother] at hkey
      cases hkey

/-! ## The table of members -/

theorem get?_foldl_put (entries : List Entry) (done : Members YamlId)
    (hnamed : ∀ entry ∈ entries, (g.keyName? entry.1).isSome = true) :
    (entries.foldl g.putEntry done).get? name = (g.lastOf name entries).or (done.get? name) := by
  induction entries generalizing done with
  | nil => rfl
  | cons entry rest ih =>
    rw [List.forall_mem_cons] at hnamed
    obtain ⟨found, hfound⟩ := Option.isSome_iff_exists.mp hnamed.1
    have hfirst : g.lastOf name [entry] = if name = found then some entry.2 else none := by
      by_cases h : found = name
      · simp [lastOf, hfound, h]
      · simp [lastOf, hfound, h, Ne.symm h]
    rw [List.foldl_cons, ih _ hnamed.2, ← List.singleton_append, lastOf_append, hfirst, putEntry,
      Members.get?_put, hfound, Option.getD_some, Option.or_assoc]
    split <;> rfl

theorem nodup_foldl_put (entries : List Entry) (done : Members YamlId)
    (hdone : done.names.Nodup) :
    (entries.foldl g.putEntry done).names.Nodup := by
  induction entries generalizing done with
  | nil => exact hdone
  | cons entry rest ih => exact ih _ (Members.nodup_put hdone)

theorem named_of_expanded (hg : g.Regular root) {entry : Entry} (h : entry ∈ g.expanded id) :
    (g.keyName? entry.1).isSome = true := by
  obtain ⟨source, -, hown⟩ := mem_expanded hg h
  exact hg.keys source entry hown

theorem fits_of_expanded (hg : g.Regular root) {entry : Entry} (h : entry ∈ g.expanded id) :
    g.fits entry.2 = true := by
  obtain ⟨source, -, hown⟩ := mem_expanded hg h
  exact hg.values source entry hown

theorem nodup_members (g : YamlGraph) (id : YamlId) : (g.members id).names.Nodup :=
  nodup_foldl_put _ _ List.nodup_nil

theorem get?_members (hg : g.Regular root) :
    (g.members id).get? name = g.lastOf name (g.expanded id) := by
  rw [members, get?_foldl_put _ _ fun _ => named_of_expanded hg]
  exact Option.or_none

theorem gives_of_members (hg : g.Regular root) (h : (name, value) ∈ g.members id) :
    g.Gives id name value := by
  refine gives_of_lastOf hg ?_
  rw [← get?_members hg, Members.get?_of_mem (nodup_members g id) h]

theorem mem_names_members (hg : g.Regular root) :
    name ∈ (g.members id).names ↔ g.HasKey id name := by
  rw [hasKey_iff hg, ← get?_members hg, Option.isSome_iff_ne_none, Ne, Members.get?_eq_none_iff,
    not_not]

theorem mem_expanded_of_members (h : (name, value) ∈ g.members id) :
    ∃ key, (key, value) ∈ g.expanded id := by
  have hfold : ∀ (entries : List Entry) (done : Members YamlId),
      (name, value) ∈ entries.foldl g.putEntry done →
      (name, value) ∈ done ∨ ∃ key, (key, value) ∈ entries := by
    intro entries
    induction entries with
    | nil => exact fun done h => .inl h
    | cons entry rest ih =>
      intro done h
      rcases ih _ h with hdone | ⟨key, hkey⟩
      · rcases Members.mem_put hdone with hold | heq
        · exact .inl hold
        · exact .inr ⟨entry.1, List.mem_cons.mpr (.inl (Prod.ext rfl (Prod.mk.inj heq).2))⟩
      · exact .inr ⟨key, List.mem_cons_of_mem _ hkey⟩
  rcases hfold _ _ h with hnone | hsome
  · simp at hnone
  · exact hsome

end YamlGraph

end JsonSchema.Yaml

import JsonSchema.Document.Yaml
import JsonSchema.Proofs.Pointer.Place
import JsonSchema.Proofs.Yaml.Expansion

/-!
# Where the nodes of a document start

The walk through a document takes every way to each of its nodes, and records at the end of the way
where the node starts. A document that has no cycles and whose keys all have names is walked to its
end.
-/

namespace JsonSchema

/-! ## Recording -/

/-- The pointers that a walk recorded between two maps, each with its place. -/
structure SourceMap.Records (spots : String → SourceEntry → Prop) (map map' : SourceMap) :
    Prop where
  keeps : ∀ pointer ∈ map.names, pointer ∈ map'.names
  covers : ∀ pointer spot, spots pointer spot → pointer ∈ map'.names
  sound : ∀ pointer spot, map'.get? pointer = some spot →
    map.get? pointer = some spot ∨ spots pointer spot

namespace SourceMap.Records

variable {spots spots' : String → SourceEntry → Prop} {map map' map'' : SourceMap}

theorem refl (map : SourceMap) : Records (fun _ _ => False) map map where
  keeps := fun _ h => h
  covers := nofun
  sound := fun _ _ h => .inl h

theorem trans (h : Records spots map map') (h' : Records spots' map' map'') :
    Records (fun pointer spot => spots pointer spot ∨ spots' pointer spot) map map'' where
  keeps pointer hpointer := h'.keeps pointer (h.keeps pointer hpointer)
  covers pointer spot hspot := by
    rcases hspot with hspot | hspot
    · exact h'.keeps pointer (h.covers pointer spot hspot)
    · exact h'.covers pointer spot hspot
  sound pointer spot hget := by
    rcases h'.sound pointer spot hget with hold | hspot
    · exact (h.sound pointer spot hold).imp_right .inl
    · exact .inr (.inr hspot)

theorem congr (h : Records spots map map')
    (heq : ∀ pointer spot, spots pointer spot ↔ spots' pointer spot) :
    Records spots' map map' where
  keeps := h.keeps
  covers pointer spot hspot := h.covers pointer spot ((heq pointer spot).mpr hspot)
  sound pointer spot hget := (h.sound pointer spot hget).imp_right (heq pointer spot).mp

theorem put (map : SourceMap) (pointer : String) (spot : SourceEntry) :
    Records (fun other recorded => other = pointer ∧ recorded = spot) map
      (Members.put map pointer spot) where
  keeps other hother := Members.mem_names_put.mpr (.inr hother)
  covers other recorded hspot := Members.mem_names_put.mpr (.inl hspot.1)
  sound other recorded hget := by
    rw [Members.get?_put] at hget
    split at hget
    case isTrue heq => exact .inr ⟨heq, (Option.some.inj hget).symm⟩
    case isFalse => exact .inl hget

end SourceMap.Records

namespace Pointer

theorem join_cons (base token : String) (tokens : List String) :
    join base (token :: tokens) = join (join base [token]) tokens := by
  rw [join_join, List.singleton_append]

theorem escapeChars_digits {cs : List Char} (h : ∀ c ∈ cs, c.isDigit = true) :
    escapeChars cs = cs := by
  fun_induction escapeChars cs with
  | case1 => rfl
  | case2 => exact absurd (h '~' List.mem_cons_self) (by decide)
  | case3 => exact absurd (h '/' List.mem_cons_self) (by decide)
  | case4 c rest _ _ ih => rw [ih fun other hother => h other (List.mem_cons_of_mem c hother)]

theorem join_natText (base : String) (index : Nat) :
    join base [natText index] = base ++ "/" ++ natText index := by
  have hdigits : ∀ c ∈ Nat.toDigits 10 index, c.isDigit = true :=
    fun c hc => Nat.isDigit_of_mem_toDigits (by omega) (by omega) hc
  rw [← String.toList_inj, toList_join]
  simp [chars, natText, escapeChars_digits hdigits]

end Pointer

namespace Yaml

open Relation (TransGen)

def YamlNode.spot (node : YamlNode) : SourceEntry :=
  ⟨some node.place.line, some node.place.column⟩

namespace YamlGraph

/-! ## Ways -/

/-- The tokens lead from a node to a node inside it. -/
inductive Stands (g : YamlGraph) : YamlId → List String → YamlId → Prop
  | here {id : YamlId} : Stands g id [] id
  | item {id item inner : YamlId} {items : List YamlId} {index : Nat} {tokens : List String}
      (hitems : (g.node id).content = .sequence items) (hitem : items[index]? = some item)
      (h : Stands g item tokens inner) : Stands g id (natText index :: tokens) inner
  | member {id key value inner : YamlId} {entries : List Entry} {name : String}
      {tokens : List String} (hentries : (g.node id).content = .mapping entries)
      (hentry : (key, value) ∈ entries) (hname : (g.node key).memberName? = .ok (some name))
      (h : Stands g value tokens inner) : Stands g id (name :: tokens) inner

def Named (g : YamlGraph) (id : YamlId) : Prop :=
  ∀ tokens inner, g.Stands id tokens inner → ∀ entry ∈ g.entries inner,
    ∃ name, (g.node entry.1).memberName? = .ok (some name)

def SpotsAt (g : YamlGraph) (base : String) (id : YamlId) (pointer : String)
    (spot : SourceEntry) : Prop :=
  ∃ tokens inner, g.Stands id tokens inner ∧ pointer = Pointer.join base tokens ∧
    spot = (g.node inner).spot

variable {g : YamlGraph} {id inner value : YamlId} {items : List YamlId} {entries : List Entry}
  {tokens more : List String} {base pointer : String} {spot : SourceEntry}

theorem Stands.append (h : g.Stands id tokens inner) (h' : g.Stands inner more value) :
    g.Stands id (tokens ++ more) value := by
  induction h with
  | here => exact h'
  | item hitems hitem _ ih => exact .item hitems hitem (ih h')
  | member hentries hentry hname _ ih => exact .member hentries hentry hname (ih h')

theorem Named.inside (h : g.Named id) (hinner : g.Stands id tokens inner) : g.Named inner :=
  fun more other hother => h (tokens ++ more) other (hinner.append hother)

theorem leads_of_mem_items {item : YamlId} (hitems : (g.node id).content = .sequence items)
    (hitem : item ∈ items) : g.Leads id item :=
  .inl (by rwa [YamlGraph.items, hitems])

theorem leads_of_mem_entries {entry : Entry} (hentries : (g.node id).content = .mapping entries)
    (hentry : entry ∈ entries) : g.Leads id entry.2 :=
  .inr ⟨entry, by rwa [YamlGraph.entries, hentries], .inr rfl⟩

/-! ## The places inside a node -/

theorem spotsAt_here (g : YamlGraph) (base : String) (id : YamlId) :
    g.SpotsAt base id base (g.node id).spot :=
  ⟨[], id, .here, (Pointer.join_nil base).symm, rfl⟩

theorem spotsAt_scalar {text : String} (hcontent : (g.node id).content = .scalar text) :
    g.SpotsAt base id pointer spot ↔ pointer = base ∧ spot = (g.node id).spot := by
  constructor
  · rintro ⟨tokens, inner, hstands, rfl, rfl⟩
    cases hstands with
    | here => exact ⟨Pointer.join_nil base, rfl⟩
    | item hitems => simp [hcontent] at hitems
    | member hentries => simp [hcontent] at hentries
  · rintro ⟨rfl, rfl⟩
    exact spotsAt_here g _ id

theorem spotsAt_sequence (hcontent : (g.node id).content = .sequence items) :
    g.SpotsAt base id pointer spot ↔ (pointer = base ∧ spot = (g.node id).spot) ∨
      ∃ index item, items[index]? = some item ∧
        g.SpotsAt (Pointer.join base [natText index]) item pointer spot := by
  constructor
  · rintro ⟨tokens, inner, hstands, rfl, rfl⟩
    cases hstands with
    | here => exact .inl ⟨Pointer.join_nil base, rfl⟩
    | item hitems hitem h =>
      obtain rfl := Content.sequence.inj (hcontent.symm.trans hitems)
      exact .inr ⟨_, _, hitem, _, inner, h, Pointer.join_cons .., rfl⟩
    | member hentries => simp [hcontent] at hentries
  · rintro (⟨rfl, rfl⟩ | ⟨index, item, hitem, tokens, inner, h, rfl, rfl⟩)
    · exact spotsAt_here g _ id
    · exact ⟨_, inner, .item hcontent hitem h, (Pointer.join_cons ..).symm, rfl⟩

theorem spotsAt_mapping (hcontent : (g.node id).content = .mapping entries) :
    g.SpotsAt base id pointer spot ↔ (pointer = base ∧ spot = (g.node id).spot) ∨
      ∃ entry ∈ entries, ∃ name, (g.node entry.1).memberName? = .ok (some name) ∧
        g.SpotsAt (Pointer.join base [name]) entry.2 pointer spot := by
  constructor
  · rintro ⟨tokens, inner, hstands, rfl, rfl⟩
    cases hstands with
    | here => exact .inl ⟨Pointer.join_nil base, rfl⟩
    | item hitems => simp [hcontent] at hitems
    | member hentries hentry hname h =>
      obtain rfl := Content.mapping.inj (hcontent.symm.trans hentries)
      exact .inr ⟨_, hentry, _, hname, _, inner, h, Pointer.join_cons .., rfl⟩
  · rintro (⟨rfl, rfl⟩ | ⟨entry, hentry, name, hname, tokens, inner, h, rfl, rfl⟩)
    · exact spotsAt_here g _ id
    · exact ⟨_, inner, .member hcontent hentry hname h, (Pointer.join_cons ..).symm, rfl⟩

/-! ## The walk -/

/-- The walk from a node comes to its end and records the places inside the node. -/
def Locates (g : YamlGraph) (fuel : Nat) (around : List YamlId) (id : YamlId) : Prop :=
  ∀ base map, ∃ map', g.locate fuel around base id map = .ok map' ∧
    SourceMap.Records (g.SpotsAt base id) map map'

variable {fuel : Nat} {around : List YamlId}

theorem locateItems_records (base : String) (start : Nat) (map : SourceMap)
    (h : ∀ item ∈ items, g.Locates fuel around item) :
    ∃ map', g.locateItems fuel around base start items map = .ok map' ∧
      SourceMap.Records (fun pointer spot => ∃ index item, items[index]? = some item ∧
        g.SpotsAt (Pointer.join base [natText (start + index)]) item pointer spot) map map' := by
  induction items generalizing start map with
  | nil =>
    refine ⟨map, by rw [locateItems], (SourceMap.Records.refl map).congr fun pointer spot => ?_⟩
    simp
  | cons first rest ih =>
    rw [List.forall_mem_cons] at h
    obtain ⟨map', heq, hfirst⟩ := h.1 (Pointer.join base [natText start]) map
    obtain ⟨map'', heq', hrest⟩ := ih (start + 1) map' h.2
    refine ⟨map'', ?_, (hfirst.trans hrest).congr fun pointer spot => ?_⟩
    · rw [locateItems, ← Pointer.join_natText, heq, Except.ok_bind, heq']
    constructor
    · rintro (hspot | ⟨index, item, hitem, hspot⟩)
      · exact ⟨0, first, rfl, hspot⟩
      · refine ⟨index + 1, item, hitem, ?_⟩
        rwa [← Nat.add_assoc, Nat.add_right_comm]
    · rintro ⟨index, item, hitem, hspot⟩
      cases index with
      | zero => exact .inl (Option.some.inj hitem ▸ hspot)
      | succ index =>
        refine .inr ⟨index, item, hitem, ?_⟩
        rwa [Nat.add_right_comm, Nat.add_assoc]

theorem locateEntries_records (base : String) (map : SourceMap)
    (hnamed : ∀ entry ∈ entries, ∃ name, (g.node entry.1).memberName? = .ok (some name))
    (h : ∀ entry ∈ entries, g.Locates fuel around entry.2) :
    ∃ map', g.locateEntries fuel around base entries map = .ok map' ∧
      SourceMap.Records (fun pointer spot => ∃ entry ∈ entries, ∃ name,
        (g.node entry.1).memberName? = .ok (some name) ∧
          g.SpotsAt (Pointer.join base [name]) entry.2 pointer spot) map map' := by
  induction entries generalizing map with
  | nil =>
    refine ⟨map, by rw [locateEntries], (SourceMap.Records.refl map).congr fun pointer spot => ?_⟩
    simp
  | cons first rest ih =>
    rw [List.forall_mem_cons] at h hnamed
    obtain ⟨name, hname⟩ := hnamed.1
    obtain ⟨map', heq, hfirst⟩ := h.1 (Pointer.join base [name]) map
    obtain ⟨map'', heq', hrest⟩ := ih map' hnamed.2 h.2
    refine ⟨map'', ?_, (hfirst.trans hrest).congr fun pointer spot => ?_⟩
    · obtain ⟨key, value⟩ := first
      rw [locateEntries, hname, Except.ok_bind]
      simp only [heq, Except.ok_bind, heq']
    · simp [hname]

structure Around (size : Nat) (around : List YamlId) : Prop where
  nodup : around.Nodup
  bound : ∀ outer ∈ around, outer < size

namespace Around

variable {size : Nat}

theorem nil (size : Nat) : Around size [] := ⟨List.nodup_nil, nofun⟩

theorem cons (h : Around size around) (hnew : around.contains id = false) (hid : id < size) :
    Around size (id :: around) where
  nodup := List.nodup_cons.mpr ⟨by simpa using hnew, h.nodup⟩
  bound := List.forall_mem_cons.mpr ⟨hid, h.bound⟩

theorem length_le (h : Around size around) : around.length ≤ size := by
  have hsub : around ⊆ List.range size := fun outer houter =>
    List.mem_range.mpr (h.bound outer houter)
  simpa using (List.subperm_of_subset h.nodup hsub).length_le

end Around

/--
How the walk came to a node: the nodes around it are all different, each leads to it, and the fuel
lasts for as many more nodes as there are.
-/
structure Descends (g : YamlGraph) (fuel : Nat) (around : List YamlId) (id : YamlId) : Prop where
  nodup : around.Nodup
  bound : ∀ outer ∈ around, outer < g.nodes.size
  above : ∀ outer ∈ around, TransGen g.Leads outer id
  fuel : fuel + around.length = g.nodes.size + 1

namespace Descends

theorem length_le (h : g.Descends fuel around id) : around.length ≤ g.nodes.size :=
  Around.length_le ⟨h.nodup, h.bound⟩

theorem notMem (hacyclic : ∀ id, ¬ TransGen g.Leads id id) (h : g.Descends fuel around id) :
    id ∉ around :=
  fun hid => hacyclic id (h.above id hid)

theorem step (hacyclic : ∀ id, ¬ TransGen g.Leads id id) (h : g.Descends (fuel + 1) around id)
    (hkind : (g.node id).kind ≠ .scalar) (hleads : g.Leads id inner) :
    g.Descends fuel (id :: around) inner where
  nodup := List.nodup_cons.mpr ⟨h.notMem hacyclic, h.nodup⟩
  bound := List.forall_mem_cons.mpr ⟨lt_of_kind hkind, h.bound⟩
  above := List.forall_mem_cons.mpr
    ⟨.single hleads, fun outer houter => (h.above outer houter).tail hleads⟩
  fuel := by
    rw [List.length_cons, ← h.fuel]
    omega

end Descends

theorem Locates.of_descends (hacyclic : ∀ id, ¬ TransGen g.Leads id id)
    (h : g.Descends fuel around id) (hnamed : g.Named id) : g.Locates fuel around id := by
  -- On the fuel: the nodes around the walk are all different, so it comes to its end before.
  induction fuel generalizing around id with
  | zero =>
    have hlength := h.length_le
    have hfuel := h.fuel
    omega
  | succ fuel ih =>
    intro base map
    have hput := SourceMap.Records.put map base (g.node id).spot
    have hnew : around.contains id = false := by simpa using h.notMem hacyclic
    rw [locate]
    simp only [hnew, Bool.false_eq_true, if_false]
    cases hcontent : (g.node id).content with
    | scalar text =>
      exact ⟨_, rfl, hput.congr fun pointer spot => (spotsAt_scalar hcontent).symm⟩
    | sequence items =>
      have hkind : (g.node id).kind ≠ .scalar := by simp [YamlNode.kind, Content.kind, hcontent]
      have hitems : ∀ item ∈ items, g.Locates fuel (id :: around) item := by
        intro item hitem
        obtain ⟨index, hindex⟩ := List.getElem?_of_mem hitem
        exact ih (h.step hacyclic hkind (leads_of_mem_items hcontent hitem))
          (hnamed.inside (.item hcontent hindex .here))
      obtain ⟨map', heq, hrecords⟩ := locateItems_records base 0 _ hitems
      refine ⟨map', heq, (hput.trans hrecords).congr fun pointer spot => ?_⟩
      simp only [Nat.zero_add]
      exact (spotsAt_sequence hcontent).symm
    | mapping entries =>
      have hkind : (g.node id).kind ≠ .scalar := by simp [YamlNode.kind, Content.kind, hcontent]
      have hnames : ∀ entry ∈ entries,
          ∃ name, (g.node entry.1).memberName? = .ok (some name) := by
        intro entry hentry
        exact hnamed [] id .here entry (by rwa [YamlGraph.entries, hcontent])
      have hentries : ∀ entry ∈ entries, g.Locates fuel (id :: around) entry.2 := by
        intro entry hentry
        obtain ⟨name, hname⟩ := hnames entry hentry
        exact ih (h.step hacyclic hkind (leads_of_mem_entries hcontent hentry))
          (hnamed.inside (.member hcontent hentry hname .here))
      obtain ⟨map', heq, hrecords⟩ := locateEntries_records base _ hnames hentries
      exact ⟨map', heq,
        (hput.trans hrecords).congr fun pointer spot => (spotsAt_mapping hcontent).symm⟩

theorem locates_root {root : YamlId} (hacyclic : ∀ id, ¬ TransGen g.Leads id id)
    (hnamed : g.Named root) : g.Locates (g.nodes.size + 1) [] root :=
  .of_descends hacyclic ⟨List.nodup_nil, nofun, nofun, rfl⟩ hnamed

/-! ## Documents -/

/--
A document is built like the nodes below a root: arrays stand for sequences and objects for
mappings, with the same names in the same order. What a scalar stands for is up to `means`.
-/
inductive Mirrors (g : YamlGraph) (means : Json → YamlNode → Prop) : Json → YamlId → Prop
  | scalar {id : YamlId} {json : Json} {text : String}
      (hcontent : (g.node id).content = .scalar text) (hflat : json.IsFlat)
      (hmeans : means json (g.node id)) : Mirrors g means json id
  | sequence {id : YamlId} {values : List Json} {items : List YamlId}
      (hcontent : (g.node id).content = .sequence items) (hlength : values.length = items.length)
      (hvalues : ∀ (index : Nat) value item, values[index]? = some value →
        items[index]? = some item → Mirrors g means value item) :
      Mirrors g means (.arr values) id
  | mapping {id : YamlId} {members : Members Json} {entries : List Entry}
      (hcontent : (g.node id).content = .mapping entries)
      (hlength : members.length = entries.length)
      (hnames : ∀ (index : Nat) member entry, members[index]? = some member →
        entries[index]? = some entry → (g.node entry.1).memberName? = .ok (some member.1))
      (hvalues : ∀ (index : Nat) member entry, members[index]? = some member →
        entries[index]? = some entry → Mirrors g means member.2 entry.2) :
      Mirrors g means (.obj members) id

namespace Mirrors

variable {means : Json → YamlNode → Prop} {json document : Json} {root other : YamlId}

theorem of_stands (h : g.Mirrors means json id) (hstands : g.Stands id tokens inner) :
    ∃ value, json.Leads tokens value ∧ g.Mirrors means value inner := by
  induction hstands generalizing json with
  | here => exact ⟨json, .root, h⟩
  | item hitems hitem _ ih =>
    cases h with
    | scalar hcontent => simp [hcontent] at hitems
    | sequence hcontent hlength hvalues =>
      obtain rfl := Content.sequence.inj (hcontent.symm.trans hitems)
      obtain ⟨child, hchild⟩ := exists_getElem?_of_length hlength.symm hitem
      obtain ⟨value, hleads, hvalue⟩ := ih (hvalues _ _ _ hchild hitem)
      exact ⟨value, (Json.Leads.root.item hchild).append hleads, hvalue⟩
    | mapping hcontent => simp [hcontent] at hitems
  | member hentries hentry hname _ ih =>
    cases h with
    | scalar hcontent => simp [hcontent] at hentries
    | sequence hcontent => simp [hcontent] at hentries
    | mapping hcontent hlength hnames hvalues =>
      obtain rfl := Content.mapping.inj (hcontent.symm.trans hentries)
      obtain ⟨index, hindex⟩ := List.getElem?_of_mem hentry
      obtain ⟨⟨name, child⟩, hmember⟩ := exists_getElem?_of_length hlength.symm hindex
      have hsame := hnames _ _ _ hmember hindex
      obtain rfl := Option.some.inj (Except.ok.inj (hname.symm.trans hsame))
      obtain ⟨value, hleads, hvalue⟩ := ih (hvalues _ _ _ hmember hindex)
      exact ⟨value, (Json.Leads.root.member (List.mem_of_getElem? hmember)).append hleads, hvalue⟩

theorem exists_stands (h : g.Mirrors means document root) {value : Json}
    (hleads : document.Leads tokens value) :
    ∃ inner, g.Stands root tokens inner ∧ g.Mirrors means value inner := by
  induction hleads with
  | root => exact ⟨root, .here, h⟩
  | member _ hvalue ih =>
    obtain ⟨outer, hstands, hmirrors⟩ := ih
    cases hmirrors with
    | scalar _ hflat => exact absurd hflat id
    | mapping hcontent hlength hnames hvalues =>
      obtain ⟨index, hindex⟩ := List.getElem?_of_mem hvalue
      obtain ⟨⟨key, inner⟩, hentry⟩ := exists_getElem?_of_length hlength hindex
      have hname := hnames _ _ _ hindex hentry
      exact ⟨inner, hstands.append (.member hcontent (List.mem_of_getElem? hentry) hname .here),
        hvalues _ _ _ hindex hentry⟩
  | item _ hvalue ih =>
    obtain ⟨outer, hstands, hmirrors⟩ := ih
    cases hmirrors with
    | scalar _ hflat => exact absurd hflat id
    | sequence hcontent hlength hvalues =>
      obtain ⟨inner, hitem⟩ := exists_getElem?_of_length hlength hvalue
      exact ⟨inner, hstands.append (.item hcontent hitem .here), hvalues _ _ _ hvalue hitem⟩

theorem named (h : g.Mirrors means json id) : g.Named id := by
  intro tokens inner hstands entry hentry
  obtain ⟨value, -, hmirrors⟩ := h.of_stands hstands
  unfold YamlGraph.entries at hentry
  cases hmirrors with
  | scalar hcontent => simp [hcontent] at hentry
  | sequence hcontent => simp [hcontent] at hentry
  | mapping hcontent hlength hnames =>
    rw [hcontent] at hentry
    obtain ⟨index, hindex⟩ := List.getElem?_of_mem hentry
    obtain ⟨member, hmember⟩ := exists_getElem?_of_length hlength.symm hindex
    exact ⟨member.1, hnames _ _ _ hmember hindex⟩

theorem unique (h : g.Mirrors means json id) (hjson : json.isWellFormed = true)
    (hstands : g.Stands id tokens inner) (hother : g.Stands id tokens other) : other = inner := by
  induction hstands generalizing json with
  | here =>
    cases hother
    rfl
  | @item id item inner items index tokens hitems hitem _ ih =>
    generalize htokens : natText index :: tokens = path at hother
    cases hother with
    | here => cases htokens
    | member hentries => simp [hitems] at hentries
    | item hitems' hitem' hinner =>
      obtain ⟨hindex, rfl⟩ := List.cons.inj htokens
      obtain rfl := natText_inj hindex
      obtain rfl := Content.sequence.inj (hitems.symm.trans hitems')
      obtain rfl := Option.some.inj (hitem.symm.trans hitem')
      cases h with
      | scalar hcontent => simp [hcontent] at hitems
      | mapping hcontent => simp [hcontent] at hitems
      | sequence hcontent hlength hvalues =>
        obtain rfl := Content.sequence.inj (hcontent.symm.trans hitems)
        obtain ⟨child, hchild⟩ := exists_getElem?_of_length hlength.symm hitem
        exact ih (hvalues _ _ _ hchild hitem)
          (Json.isWellFormed_item hjson (List.mem_of_getElem? hchild)) hinner
  | @member id key value inner entries name tokens hentries hentry hname _ ih =>
    generalize htokens : name :: tokens = path at hother
    cases hother with
    | here => cases htokens
    | item hitems => simp [hentries] at hitems
    | member hentries' hentry' hname' hinner =>
      obtain ⟨rfl, rfl⟩ := List.cons.inj htokens
      obtain rfl := Content.mapping.inj (hentries.symm.trans hentries')
      cases h with
      | scalar hcontent => simp [hcontent] at hentries
      | sequence hcontent => simp [hcontent] at hentries
      | mapping hcontent hlength hnames hvalues =>
        obtain rfl := Content.mapping.inj (hcontent.symm.trans hentries)
        obtain ⟨index, hindex⟩ := List.getElem?_of_mem hentry
        obtain ⟨index', hindex'⟩ := List.getElem?_of_mem hentry'
        obtain ⟨child, hchild⟩ := exists_getElem?_of_length hlength.symm hindex
        obtain ⟨child', hchild'⟩ := exists_getElem?_of_length hlength.symm hindex'
        have hfirst := Option.some.inj
          (Except.ok.inj (hname.symm.trans (hnames _ _ _ hchild hindex)))
        have hsecond := Option.some.inj
          (Except.ok.inj (hname'.symm.trans (hnames _ _ _ hchild' hindex')))
        -- Both entries have the name, so they are the same one.
        obtain rfl : index = index' := by
          refine (List.getElem?_inj ?_ (Json.isWellFormed_names hjson)).mp ?_
          · rw [Members.names, List.length_map]
            exact (List.getElem?_eq_some_iff.mp hchild).1
          · simp [Members.names, hchild, hchild', ← hfirst, ← hsecond]
        obtain ⟨rfl, rfl⟩ := Prod.mk.inj (Option.some.inj (hindex.symm.trans hindex'))
        exact ih (hvalues _ _ _ hchild hindex)
          (Json.isWellFormed_member hjson (List.mem_of_getElem? hchild)) hinner

/--
The walk through the nodes of a document records the pointers of all its values and no others, and
at each of them where the node starts that stands there.
-/
theorem located (h : g.Mirrors means document root) (hdocument : document.isWellFormed = true)
    (hacyclic : ∀ id, ¬ TransGen g.Leads id id) :
    ∃ map, g.locate (g.nodes.size + 1) [] "" root [] = .ok map ∧
      (∀ pointer, pointer ∈ map.names ↔
        ∃ tokens value, document.Leads tokens value ∧ pointer = Pointer.ofTokens tokens) ∧
      ∀ tokens inner, g.Stands root tokens inner →
        map.get? (Pointer.ofTokens tokens) = some (g.node inner).spot := by
  obtain ⟨map, heq, hrecords⟩ := locates_root hacyclic h.named "" []
  have hsound : ∀ pointer spot, map.get? pointer = some spot →
      g.SpotsAt "" root pointer spot := by
    intro pointer spot hget
    rcases hrecords.sound pointer spot hget with hold | hspot
    · cases hold
    · exact hspot
  have hfound : ∀ pointer ∈ map.names, ∃ spot, map.get? pointer = some spot := by
    intro pointer hpointer
    exact Option.ne_none_iff_exists'.mp fun hnone => Members.get?_eq_none_iff.mp hnone hpointer
  refine ⟨map, heq, fun pointer => ⟨fun hpointer => ?_, ?_⟩, fun tokens inner hstands => ?_⟩
  · obtain ⟨spot, hget⟩ := hfound pointer hpointer
    obtain ⟨tokens, inner, hstands, rfl, -⟩ := hsound pointer spot hget
    obtain ⟨value, hleads, -⟩ := h.of_stands hstands
    exact ⟨tokens, value, hleads, rfl⟩
  · rintro ⟨tokens, value, hleads, rfl⟩
    obtain ⟨inner, hstands, -⟩ := h.exists_stands hleads
    exact hrecords.covers _ _ ⟨tokens, inner, hstands, rfl, rfl⟩
  · obtain ⟨spot, hget⟩ :=
      hfound _ (hrecords.covers _ _ ⟨tokens, inner, hstands, rfl, rfl⟩)
    obtain ⟨others, other, hother, htokens, rfl⟩ := hsound _ _ hget
    obtain rfl := Pointer.ofTokens_injective htokens
    rw [h.unique hdocument hstands hother] at hget
    exact hget

end Mirrors

end YamlGraph

end Yaml

end JsonSchema

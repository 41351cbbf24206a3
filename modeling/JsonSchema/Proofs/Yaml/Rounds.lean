import JsonSchema.Proofs.Yaml.Reading

/-!
# Reading a whole document

The collections are read round by round until none is left. Either one of them repeats a name, or
all nodes of the document have their values in the end.
-/

namespace JsonSchema.Yaml

open Relation (TransGen ReflTransGen)

namespace YamlGraph

def mergedBy (g : YamlGraph) (read : List YamlId) (id : YamlId) : Prop :=
  ∃ earlier ∈ read, (g.node earlier).kind = .mapping ∧ ReflTransGen g.Merges earlier id

end YamlGraph

open YamlGraph (mergedBy)

variable {G : YamlGraph} {root id : YamlId} {read : List YamlId} {u : Unread}
  {waiting : List Unread} {c c' : Construction}

/-- The collections in `read` are read, and those in `waiting` are the rest of the round. -/
structure Stage (G : YamlGraph) (root : YamlId) (read : List YamlId) (waiting : List Unread)
    (c : Construction) : Prop where
  reads : Reads G (G.mergedBy read) read (G.knownAfter root read.length) waiting c
  values : ∀ id ∈ read, c.value? id = some (G.valueAt id)
  children : ∀ id ∈ read, ∀ child ∈ G.children id, (c.value? child).isSome = true
  fresh : ∀ n < read.length, ¬ G.RepeatsAt root n
  root : (c.value? root).isSome = true

/-- The document repeats a name. -/
def IsRepeat {α : Type} (outcome : Except YamlFault α) : Prop :=
  ∃ place name, outcome = .error (.here place (.duplicateKey name))

/-! ## One collection -/

theorem mergedBy_append (id other : YamlId) :
    G.mergedBy (read ++ [id]) other ↔ orMerged G (G.mergedBy read) id other := by
  simp [mergedBy, orMerged, or_and_right, exists_or]

theorem kind_of_merges {earlier : YamlId} (h : TransGen G.Merges earlier id) :
    (G.node earlier).kind = .mapping := by
  obtain ⟨source, hsource, -⟩ := TransGen.head'_iff.mp h
  obtain ⟨entry, hentry, -⟩ := YamlGraph.mem_sources.mp hsource
  exact YamlGraph.kind_of_entry hentry

theorem ContentRead.isSome {other : YamlId} (h : ContentRead G c id c')
    (hother : (c.value? other).isSome = true) : (c'.value? other).isSome = true := by
  obtain ⟨value, hvalue⟩ := Option.isSome_iff_exists.mp hother
  by_cases heq : other = id
  · rw [heq, h.value]
    rfl
  · rw [h.others other value heq hvalue]
    rfl

namespace Stage

theorem known (h : Stage G root read (u :: waiting) c) :
    G.knownAfter root read.length = read ++ u.id :: (waiting ++ c.unread.reverse).map (·.id) :=
  h.reads.order

theorem mem (h : Stage G root read (u :: waiting) c) : u.id ∈ G.knownAfter root read.length := by
  simp [h.known]

theorem getElem? (h : Stage G root read (u :: waiting) c) :
    (G.knownAfter root read.length)[read.length]? = some u.id := by
  rw [h.known, List.getElem?_append_right (Nat.le_refl _), Nat.sub_self]
  rfl

theorem take (h : Stage G root read (u :: waiting) c) :
    (G.knownAfter root read.length).take read.length = read := by
  rw [h.known, List.take_left]

theorem notMem (h : Stage G root read (u :: waiting) c) : u.id ∉ read := by
  have hnodup := h.known ▸ h.reads.nodup
  exact fun hmem => (List.nodup_append.mp hnodup).2.2 u.id hmem u.id List.mem_cons_self rfl

/-- A mapping that is read next is merged already if and only if an earlier one took it in. -/
theorem mergedBefore_iff (h : Stage G root read (u :: waiting) c) :
    G.MergedBefore root read.length u.id ↔ G.mergedBy read u.id := by
  rw [YamlGraph.MergedBefore, h.take, mergedBy]
  refine exists_congr fun earlier => and_congr_right fun hearlier => ?_
  have hne : earlier ≠ u.id := fun heq => h.notMem (heq ▸ hearlier)
  rw [Relation.reflTransGen_iff_eq_or_transGen]
  exact ⟨fun hmerges => ⟨kind_of_merges hmerges, .inr hmerges⟩,
    fun hmerges => hmerges.2.resolve_left hne.symm⟩

theorem repeatsAt_iff (h : Stage G root read (u :: waiting) c) :
    G.RepeatsAt root read.length ↔ ¬ (G.names (G.own u.id)).Nodup ∨
      G.mergedBy read u.id ∧ ¬ (G.names (G.expanded u.id)).Nodup := by
  rw [YamlGraph.RepeatsAt, ← h.mergedBefore_iff]
  simp [h.getElem?]

theorem fits (h : Stage G root read (u :: waiting) c) : G.fits u.id = true :=
  h.reads.fits u.id h.mem

theorem tag (h : Stage G root read (u :: waiting) c) :
    KnownTag.ofText? (G.node u.id).tag = some (.collection u.tag) :=
  h.reads.tags u (by simp)

theorem pop (h : Stage G root read (u :: waiting) c) :
    Reads G (G.mergedBy read) (read ++ [u.id]) (G.knownAfter root read.length) waiting c :=
  h.reads.requeue rfl rfl (by simp [h.known]) fun _ => List.mem_cons_of_mem _

theorem advance (h : Stage G root read (u :: waiting) c)
    (hreads : Reads G (orMerged G (G.mergedBy read) u.id) (read ++ [u.id])
      ((G.children u.id).foldl G.meet (G.knownAfter root read.length)) waiting c')
    (hcontent : ContentRead G c u.id c') (hfresh : ¬ G.RepeatsAt root read.length) :
    Stage G root (read ++ [u.id]) waiting c' where
  reads := by
    rw [List.length_append, List.length_singleton, YamlGraph.knownAfter_succ h.getElem?]
    exact hreads.congr fun other => (mergedBy_append u.id other).symm
  values := by
    rw [List.forall_mem_append, List.forall_mem_singleton]
    exact ⟨fun id hid => hcontent.others id _ (fun heq => h.notMem (heq ▸ hid)) (h.values id hid),
      hcontent.value⟩
  children := by
    rw [List.forall_mem_append, List.forall_mem_singleton]
    exact ⟨fun id hid child hchild => hcontent.isSome (h.children id hid child hchild),
      hcontent.children⟩
  root := hcontent.isSome h.root
  fresh n hn := by
    rw [List.length_append, List.length_singleton, Nat.lt_succ_iff_lt_or_eq] at hn
    rcases hn with hn | rfl
    · exact h.fresh n hn
    · exact hfresh

theorem stepSequence (hg : G.Regular root) (h : Stage G root read (u :: waiting) c)
    {items : List YamlId} (hcontent : (G.node u.id).content = .sequence items) :
    ∃ c', c.readContent u = .ok c' ∧ Stage G root (read ++ [u.id]) waiting c' := by
  have hkind : (G.node u.id).kind ≠ .mapping := by simp [YamlNode.kind, Content.kind, hcontent]
  have hfresh : ¬ G.RepeatsAt root read.length := by
    rw [h.repeatsAt_iff, not_or]
    refine ⟨?_, fun hmerged => hkind (h.reads.graph.mapping u.id (.inr hmerged.1))⟩
    have hown : G.own u.id = [] := by
      rw [YamlGraph.own, YamlGraph.entries, hcontent]
      rfl
    simp [hown, YamlGraph.names]
  obtain ⟨c', heq, hreads, hread⟩ := readSequence hg h.pop h.mem h.tag hcontent
  refine ⟨c', heq, h.advance (hreads.congr fun other => ?_) hread hfresh⟩
  simp [orMerged, hkind]

theorem stepMapping (hg : G.Regular root) (h : Stage G root read (u :: waiting) c)
    (hkind : (G.node u.id).kind = .mapping) :
    (G.RepeatsAt root read.length ∧ IsRepeat (c.readContent u)) ∨
      ∃ c', c.readContent u = .ok c' ∧ Stage G root (read ++ [u.id]) waiting c' := by
  have htag : u.tag = .mapping := by
    have hfits := h.fits
    simpa [YamlGraph.fits, YamlGraph.entries_eq hkind, h.tag] using hfits
  have hiff := h.repeatsAt_iff
  by_cases hrepeats : G.RepeatsAt root read.length
  · obtain ⟨place, name, hfault⟩ := membersOf_repeats hg h.pop hkind (hiff.mp hrepeats)
    refine .inl ⟨hrepeats, place, name, ?_⟩
    unfold Construction.readContent
    rw [htag]
    simp [hfault, bind, Except.bind]
  · have hnot := mt hiff.mpr hrepeats
    rw [not_or, not_and, not_not] at hnot
    obtain ⟨c', heq, hreads, hread⟩ := readMapping hg h.pop h.mem htag hkind hnot.1
      fun hdone => not_not.mp (hnot.2 hdone)
    exact .inr ⟨c', heq, h.advance hreads hread hrepeats⟩

theorem step (hg : G.Regular root) (h : Stage G root read (u :: waiting) c) :
    (G.RepeatsAt root read.length ∧ IsRepeat (c.readContent u)) ∨
      ∃ c', c.readContent u = .ok c' ∧ Stage G root (read ++ [u.id]) waiting c' := by
  cases hcontent : (G.node u.id).content with
  | scalar text => exact absurd (congrArg Content.kind hcontent) (h.reads.kind u.id h.mem)
  | sequence items => exact .inr (h.stepSequence hg hcontent)
  | mapping entries => exact h.stepMapping hg (congrArg Content.kind hcontent)

/-! ## Rounds -/

theorem round (hg : G.Regular root) (h : Stage G root read waiting c) :
    (G.Repeats root ∧ IsRepeat (waiting.foldlM Construction.readContent c)) ∨
      ∃ c', waiting.foldlM Construction.readContent c = .ok c' ∧
        Stage G root (read ++ waiting.map (·.id)) [] c' := by
  induction waiting generalizing read c with
  | nil => exact .inr ⟨c, rfl, by simpa using h⟩
  | cons u rest ih =>
    rcases h.step hg with ⟨hrepeats, place, name, hfault⟩ | ⟨c₁, heq₁, h₁⟩
    · refine .inl ⟨⟨_, hrepeats⟩, place, name, ?_⟩
      rw [List.foldlM_cons, hfault]
      rfl
    · rw [List.foldlM_cons, heq₁, Except.ok_bind]
      simpa using ih h₁

theorem begin (h : Stage G root read [] c) :
    Stage G root read c.unread.reverse { c with unread := [] } where
  reads := h.reads.requeue rfl rfl (by simpa using h.reads.order) (by simp)
  values := h.values
  children := h.children
  fresh := h.fresh
  root := h.root

theorem length_le (h : Stage G root read waiting c) : read.length ≤ G.nodes.size := by
  have hsub : G.knownAfter root read.length ⊆ List.range G.nodes.size := fun id hid =>
    List.mem_range.mpr (YamlGraph.lt_of_fits (h.reads.fits id hid))
  have hle := (List.subperm_of_subset h.reads.nodup hsub).length_le
  rw [h.reads.order, List.length_append, List.length_range] at hle
  exact (Nat.le_add_right _ _).trans hle

theorem not_repeats (h : Stage G root read [] c) (hunread : c.unread = []) : ¬ G.Repeats root := by
  rintro ⟨n, hrepeats⟩
  have hread : G.knownAfter root read.length = read := by
    rw [h.reads.order, hunread]
    simp
  rcases Nat.lt_or_ge n read.length with hn | hn
  · exact h.fresh n hn hrepeats
  · obtain ⟨more, rfl⟩ := Nat.exists_eq_add_of_le hn
    obtain ⟨id, hid, -⟩ := hrepeats
    rw [YamlGraph.knownAfter_of_le (by rw [hread]), hread, List.getElem?_eq_none hn] at hid
    cases hid

/-- Each round reads a collection that was not read before, so the rounds come to an end. -/
theorem rounds (hg : G.Regular root) (fuel : Nat) (h : Stage G root read [] c)
    (hfuel : G.nodes.size < read.length + fuel) :
    (G.Repeats root ∧ IsRepeat (Construction.readWaiting fuel c)) ∨
      ∃ c' read', Construction.readWaiting fuel c = .ok c' ∧ Stage G root read' [] c' ∧
        c'.unread = [] := by
  -- On the fuel: a round that reads no collection is the last one.
  induction fuel generalizing read c with
  | zero => exact absurd h.length_le (by omega)
  | succ fuel ih =>
    rw [Construction.readWaiting]
    cases hunread : c.unread with
    | nil => exact .inr ⟨c, read, by simp [pure, Except.pure], h, hunread⟩
    | cons u rest =>
      have hround := h.begin.round hg
      rw [hunread] at hround
      simp only [List.isEmpty_cons, Bool.false_eq_true, if_false]
      rcases hround with ⟨hrepeats, place, name, hfault⟩ | ⟨c₁, heq₁, h₁⟩
      · refine .inl ⟨hrepeats, place, name, ?_⟩
        rw [hfault]
        rfl
      · rw [heq₁, Except.ok_bind]
        refine ih h₁ ?_
        rw [List.length_append, List.length_map, List.length_reverse, List.length_cons]
        omega

end Stage

/-! ## A whole document -/

structure Complete (G : YamlGraph) (root : YamlId) (c : Construction) : Prop where
  root : (c.value? root).isSome = true
  scalar : ∀ id value, (G.node id).kind = .scalar → c.value? id = some value →
    ∃ found, (G.node id).plain.scalar? = some found ∧ value = .scalar found
  collection : ∀ id value, (G.node id).kind ≠ .scalar → c.value? id = some value →
    value = G.valueAt id ∧ ∀ child ∈ G.children id, (c.value? child).isSome = true

theorem Stage.complete (h : Stage G root read [] c) (hunread : c.unread = []) :
    Complete G root c where
  root := h.root
  scalar := h.reads.scalar
  collection id value hkind hvalue := by
    have hmem : id ∈ read := by
      have hknown := (h.reads.known id hkind).mp (by simp [hvalue])
      rw [h.reads.order, hunread] at hknown
      simpa using hknown
    rw [h.values id hmem] at hvalue
    exact ⟨(Option.some.inj hvalue).symm, h.children id hmem⟩

theorem value?_start (G : YamlGraph) (id : YamlId) : (Construction.start G).value? id = none := by
  unfold Construction.value? Construction.start
  rw [Array.getElem?_replicate]
  split <;> rfl

theorem reads_start (G : YamlGraph) :
    Reads G (G.mergedBy []) [] [] [] (Construction.start G) where
  graph := (YamlGraph.Partly.start G).congr fun id => by simp [mergedBy]
  size := Array.size_replicate
  fits := nofun
  kind := nofun
  nodup := List.nodup_nil
  order := rfl
  tags := nofun
  scalar id value _ hvalue := by
    rw [value?_start] at hvalue
    cases hvalue
  known id _ := by simp [value?_start]

/-- The values of a document are found unless it repeats a name. -/
theorem ofGraph_outcome (hg : G.Regular root) :
    (G.Repeats root ∧ IsRepeat (Construction.ofGraph G root)) ∨
      ¬ G.Repeats root ∧ ∃ c, Construction.ofGraph G root = .ok c ∧ Complete G root c := by
  obtain ⟨value, c, heq, hvisits⟩ := (reads_start G).nodeValue hg.root
  have hstage : Stage G root [] [] c :=
    { reads := hvisits.reads
      values := nofun
      children := nofun
      root := hvisits.values root (List.mem_singleton_self root)
      fresh := nofun }
  have hgraph : Construction.ofGraph G root = Construction.readWaiting (G.nodes.size + 1) c := by
    rw [Construction.ofGraph, heq, Except.ok_bind]
  rw [hgraph]
  have hrounds := hstage.rounds hg (G.nodes.size + 1) (by simp)
  rcases hrounds with hrepeats | ⟨c', read, heq', h, hunread⟩
  · exact .inl hrepeats
  · exact .inr ⟨h.not_repeats hunread, c', heq', h.complete hunread⟩

end JsonSchema.Yaml

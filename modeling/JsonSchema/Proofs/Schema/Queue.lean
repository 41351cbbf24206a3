import JsonSchema.Proofs.Schema.Congruence
import JsonSchema.Proofs.Schema.Documents

/-!
# What walks add

Every walk, whether it comes to its end or stops at a fault, leaves the nodes that there were as
they are, starts new ones at new locations only, and lets the references of new nodes wait behind
all others.
-/

namespace JsonSchema

namespace Compilation

variable {c c' c'' : Compilation} {id : NodeId} {key location : String} {node : SchemaNode}

/-! ## Growth -/

/-- The references that wait are those of the new nodes, at most one for each. -/
structure Lines (n m : Nat) (added : List PendingRef) : Prop where
  once : (added.map (·.node)).Nodup
  range : ∀ p ∈ added, n ≤ p.node ∧ p.node < m

structure Grows (c c' : Compilation) : Prop where
  documents : c'.documents = c.documents
  targets : c'.targets = c.targets
  size : c.nodes.size ≤ c'.nodes.size
  nodes : ∀ id < c.nodes.size, c'.nodes[id]? = c.nodes[id]?
  locations : c.locations.toList <+: c'.locations.toList
  aligned : c.Aligned → c'.Aligned
  pending : ∃ added, c'.pending = c.pending ++ added ∧ Lines c.nodes.size c'.nodes.size added
  queued : ∀ id node, c.nodes.size ≤ id → c'.nodes[id]? = some (some node) →
    ∀ ref ∈ node.ref, ∃ key, ⟨id, ref, key⟩ ∈ c'.pending

theorem Lines.nil (n m : Nat) : Lines n m [] := ⟨List.nodup_nil, by simp⟩

theorem Lines.append {n m k : Nat} {added added' : List PendingRef} (h : Lines n m added)
    (h' : Lines m k added') (hnm : n ≤ m) (hmk : m ≤ k) : Lines n k (added ++ added') where
  once := nodup_pending h.once h'.once (fun p hp => (h.range p hp).2) fun p hp => (h'.range p hp).1
  range := by
    intro p hp
    rcases List.mem_append.mp hp with hp | hp
    · exact ⟨(h.range p hp).1, Nat.lt_of_lt_of_le (h.range p hp).2 hmk⟩
    · exact ⟨Nat.le_trans hnm (h'.range p hp).1, (h'.range p hp).2⟩

theorem Grows.quiet (c : Compilation) (warnings : List String) (log : Log) :
    Grows c { c with warnings, log } where
  documents := rfl
  targets := rfl
  size := Nat.le_refl _
  nodes _ _ := rfl
  locations := List.prefix_rfl
  aligned h := ⟨h.size, h.nodup⟩
  pending := ⟨[], (List.append_nil _).symm, .nil ..⟩
  queued id node hge hnode := by
    rw [Array.getElem?_eq_none hge] at hnode
    cases hnode

theorem Grows.refl (c : Compilation) : Grows c c := .quiet c c.warnings c.log

theorem Grows.trans (h : Grows c c') (h' : Grows c' c'') : Grows c c'' where
  documents := h'.documents.trans h.documents
  targets := h'.targets.trans h.targets
  size := Nat.le_trans h.size h'.size
  nodes id hid := (h'.nodes id (Nat.lt_of_lt_of_le hid h.size)).trans (h.nodes id hid)
  locations := h.locations.trans h'.locations
  aligned := h'.aligned ∘ h.aligned
  pending := by
    obtain ⟨added, hadded, hlines⟩ := h.pending
    obtain ⟨added', hadded', hlines'⟩ := h'.pending
    exact ⟨added ++ added', by rw [hadded', hadded, List.append_assoc],
      hlines.append hlines' h.size h'.size⟩
  queued id node hge hnode ref href := by
    by_cases hid : id < c'.nodes.size
    · rw [h'.nodes id hid] at hnode
      obtain ⟨key, hmem⟩ := h.queued id node hge hnode ref href
      obtain ⟨added, hadded, -⟩ := h'.pending
      exact ⟨key, hadded ▸ List.mem_append_left _ hmem⟩
    · exact h'.queued id node (Nat.not_lt.mp hid) hnode ref href

theorem Grows.started {anchors : List ((String × String) × NodeId)} (ref : Option String)
    (key : String) (hnew : location ∉ c.locations.toList) :
    Grows c (c.started location (ref.toList.map fun ref => ⟨c.nodes.size, ref, key⟩) anchors) where
  documents := rfl
  targets := rfl
  size := Nat.le_of_lt (started_size (c := c) ▸ Nat.lt_succ_self _)
  nodes id hid := (Array.getElem?_push_lt hid).trans (Array.getElem?_eq_getElem hid).symm
  locations := by simp [Compilation.started, reserved]
  aligned h := started_aligned h hnew
  pending := by
    refine ⟨_, rfl, ?_, fun p hp => ?_⟩
    · cases ref <;> simp
    · obtain ⟨ref, -, rfl⟩ := List.mem_map.mp hp
      exact ⟨Nat.le_refl _, started_size (c := c) ▸ Nat.lt_succ_self _⟩
  queued id node hge hnode := by
    -- The index that was taken has no node yet.
    rw [Compilation.started, reserved, Array.getElem?_push] at hnode
    split at hnode
    · cases hnode
    · rw [Array.getElem?_eq_none hge] at hnode
      cases hnode

theorem Grows.placed (h : Grows c c') (hid : c.nodes.size ≤ node.id)
    (hwaits : ∀ ref ∈ node.ref, ∃ key, ⟨node.id, ref, key⟩ ∈ c'.pending) :
    Grows c (c'.placed node) where
  documents := h.documents
  targets := h.targets
  size := by
    rw [Compilation.placed, Array.size_set!]
    exact h.size
  nodes id hlt := (placed_other (Nat.ne_of_lt (Nat.lt_of_lt_of_le hlt hid))).trans (h.nodes id hlt)
  locations := h.locations
  aligned hc := ⟨by simpa [Compilation.placed] using (h.aligned hc).size, (h.aligned hc).nodup⟩
  pending := by simpa [Compilation.placed] using h.pending
  queued id found hge hfound := by
    by_cases heq : id = node.id
    · subst heq
      have hlt : node.id < c'.nodes.size := by
        have := (Array.getElem?_eq_some_iff.mp hfound).1
        simpa [Compilation.placed] using this
      rw [placed_self hlt] at hfound
      cases hfound
      exact hwaits
    · rw [placed_other heq] at hfound
      exact h.queued id found hge hfound

end Compilation

namespace CompileM

open Compilation

variable {α β ε : Type} {options : CompileOptions} {compile : CompileChild} {site : Site}
  {schema : Members Json} {keyword : String} {c c' : Compilation}

/-! ## Steps that grow -/

/-- Whatever outcome a step leaves, it only adds what a walk may add. -/
structure Growing (step : CompileM α) : Prop where
  grows : ∀ {c outcome c'}, Runs step c outcome c' → Grows c c'

namespace Growing

theorem pure (a : α) : Growing (pure a) where
  grows hrun := by
    obtain ⟨-, rfl⟩ := runs_pure.mp hrun
    exact .refl _

theorem throw (e : CompileFault) : Growing (throw e : CompileM α) where
  grows hrun := by
    obtain ⟨-, rfl⟩ := runs_throw.mp hrun
    exact .refl _

theorem modify {f : Compilation → Compilation} (h : ∀ c, Grows c (f c)) : Growing (modify f) where
  grows hrun := by
    obtain ⟨-, rfl⟩ := runs_modify.mp hrun
    exact h _

theorem bind {x : CompileM α} {f : α → CompileM β} (hx : Growing x) (hf : ∀ a, Growing (f a)) :
    Growing (x >>= f) where
  grows hrun := by
    rcases runs_bind.mp hrun with ⟨e, -, hrun⟩ | ⟨a, c₁, hrun, hrun'⟩
    · exact hx.grows hrun
    · exact (hx.grows hrun).trans ((hf a).grows hrun')

theorem get {f : Compilation → CompileM β} (h : ∀ c, Growing (f c)) : Growing (get >>= f) where
  grows hrun := (h _).grows (runs_get_bind.mp hrun)

theorem record (level : Int) (message : String) : Growing (record level message) :=
  modify fun c => .quiet c c.warnings _

theorem warn (message : String) : Growing (warn message) :=
  (record ..).bind fun _ => modify fun c => .quiet c _ c.log

theorem congruence : Congruence fun _ x _ => Growing x := ⟨pure, throw, warn, bind⟩

theorem lift (fault : ε → CompileFault) (outcome : Except ε α) : Growing (lift fault outcome) :=
  congruence.lift fault outcome

theorem compileKeywords (hcompile : ∀ site child, Growing (compile site child)) (id : NodeId)
    (ref : Option String) : Growing (compileKeywords options compile site id ref schema) := by
  have hvisited : Congruence.Visited (fun _ x _ => Growing x) compile compile site site.declaration
      schema := fun child _ => hcompile site child
  have hread := congruence.compileKeywords hvisited rfl (.inl rfl) options id ref (f := Pure.pure)
    (g := Pure.pure) fun node _ => pure _
  rwa [bind_pure] at hread

end Growing

/-! ## New nodes -/

theorem compileKeywords_ok {id : NodeId} {ref : Option String} {node : SchemaNode}
    (h : Runs (compileKeywords options compile site id ref schema) c (.ok node) c') :
    node.id = id ∧ node.ref = ref := by
  obtain ⟨_, _, -, h⟩ := runs_bind_ok.mp h
  obtain ⟨_, _, -, h⟩ := runs_bind_ok.mp h
  obtain ⟨_, _, -, h⟩ := runs_bind_ok.mp h
  obtain ⟨_, _, -, h⟩ := runs_bind_ok.mp h
  obtain ⟨_, _, -, h⟩ := runs_bind_ok.mp h
  obtain ⟨_, _, -, h⟩ := runs_bind_ok.mp h
  obtain ⟨_, _, -, h⟩ := runs_bind_ok.mp h
  obtain ⟨_, _, -, h⟩ := runs_bind_ok.mp h
  obtain ⟨_, _, -, h⟩ := runs_bind_ok.mp h
  obtain ⟨hnode, -⟩ := runs_pure.mp h
  cases hnode
  exact ⟨rfl, rfl⟩

theorem readIdentity_queues {id : NodeId} {outcome : Except CompileFault (Option String)}
    (h : Runs (readIdentity site id schema) c outcome c') :
    ∃ ref anchors, (∀ found, outcome = .ok found → found = ref) ∧ c' = { c with
      pending := c.pending ++ ref.toList.map fun ref => ⟨id, ref, site.key⟩
      anchors := anchors ++ c.anchors } := by
  rcases runs_bind.mp h with ⟨e, rfl, href⟩ | ⟨ref, c₁, href, h⟩
  · obtain ⟨-, rfl⟩ := runs_lift_error.mp href
    exact ⟨none, [], nofun, by simp⟩
  obtain ⟨-, rfl⟩ := runs_lift_ok.mp href
  replace h := runs_modify_bind.mp h
  rcases runs_bind.mp h with ⟨e, rfl, hnames⟩ | ⟨names, c₂, hnames, h⟩
  · obtain ⟨-, rfl⟩ := runs_lift_error.mp hnames
    exact ⟨ref, [], nofun, rfl⟩
  obtain ⟨-, rfl⟩ := runs_lift_ok.mp hnames
  replace h := runs_modify_bind.mp h
  obtain ⟨hok, rfl⟩ := runs_pure.mp h
  refine ⟨ref, _, fun found hfound => ?_, rfl⟩
  exact (Except.ok.inj (hok.trans hfound)).symm

section

variable (hcompile : ∀ site child, Growing (compile site child))
include hcompile

theorem compileObjectSchema_grows {outcome : Except CompileFault SchemaNode}
    (hnew : site.location ∉ c.locations.toList)
    (h : Runs (compileObjectSchema options compile site c.nodes.size schema)
      (c.reserved site.location) outcome c') :
    Grows c c' ∧ ∀ node, outcome = .ok node → node.id = c.nodes.size ∧
      ∀ ref ∈ node.ref, ∃ key, ⟨c.nodes.size, ref, key⟩ ∈ c'.pending := by
  rcases runs_bind.mp h with ⟨e, rfl, hidentity⟩ | ⟨ref, c₁, hidentity, hkeywords⟩
  · obtain ⟨ref, anchors, -, rfl⟩ := readIdentity_queues hidentity
    have hstart : Grows c (c.started site.location
      (ref.toList.map fun ref => ⟨c.nodes.size, ref, site.key⟩) anchors) := .started ref _ hnew
    exact ⟨hstart, fun _ hok => nomatch hok⟩
  obtain ⟨ref', anchors, hsame, rfl⟩ := readIdentity_queues hidentity
  obtain rfl := hsame ref rfl
  have hmore := (Growing.compileKeywords hcompile c.nodes.size ref).grows hkeywords
  refine ⟨(Grows.started ref site.key hnew).trans hmore, ?_⟩
  rintro node rfl
  obtain ⟨hid, href⟩ := compileKeywords_ok hkeywords
  obtain ⟨added, hadded, -⟩ := hmore.pending
  refine ⟨hid, fun found hfound => ⟨site.key, ?_⟩⟩
  rw [hadded, ← href, Option.mem_def.mp hfound]
  simp

theorem visitObject_grows {outcome : Except CompileFault NodeId}
    (hnew : site.location ∉ c.locations.toList)
    (h : Runs (do
      let id ← reserve site.location
      place (← compileObjectSchema options compile site id schema)
      return id) c outcome c') : Grows c c' := by
  rcases runs_bind.mp h with ⟨e, -, hreserve⟩ | ⟨id, c₁, hreserve, h⟩
  · exact nomatch (runs_reserve.mp hreserve).1
  obtain ⟨hid, rfl⟩ := runs_reserve.mp hreserve
  cases hid
  rcases runs_bind.mp h with ⟨e, -, hobject⟩ | ⟨node, c₂, hobject, h⟩
  · exact (compileObjectSchema_grows hcompile hnew hobject).1
  · obtain ⟨hgrows, hnode⟩ := compileObjectSchema_grows hcompile hnew hobject
    obtain ⟨hid, hwaits⟩ := hnode node rfl
    replace h := runs_modify_bind.mp h
    obtain ⟨-, rfl⟩ := runs_pure.mp h
    exact hgrows.placed (Nat.le_of_eq hid.symm) (hid ▸ hwaits)

end

theorem visitBoolean_grows {b : Bool} {outcome : Except CompileFault NodeId}
    (hnew : site.location ∉ c.locations.toList)
    (h : Runs (do
      let id ← reserve site.location
      place { id, location := site.location, boolean := some b }
      return id) c outcome c') : Grows c c' := by
  rcases runs_bind.mp h with ⟨e, -, hreserve⟩ | ⟨id, c₁, hreserve, h⟩
  · exact nomatch (runs_reserve.mp hreserve).1
  obtain ⟨hid, rfl⟩ := runs_reserve.mp hreserve
  cases hid
  replace h := runs_modify_bind.mp h
  obtain ⟨-, rfl⟩ := runs_pure.mp h
  have hstart : Grows c (c.reserved site.location) := by
    have hstarted : Grows c (c.started site.location [] []) := Grows.started none "" hnew
    simpa [started, reserved] using hstarted
  exact hstart.placed (Nat.le_refl _) (by simp)

namespace Growing

theorem visit {children : Option CompileChild}
    (hchildren : ∀ compile ∈ children, ∀ site child, Growing (compile site child)) (owner : Owner)
    (key pointer : String) (value : Json) :
    Growing (visit options children owner key pointer value) where
  grows {c outcome c'} hrun := by
    replace hrun := runs_get_bind.mp hrun
    split at hrun
    case h_1 => exact (pure _).grows hrun
    case h_2 hnone =>
      have hnew : Site.location ⟨key, pointer, c.declarationOf key⟩ ∉ c.locations.toList :=
        notMem_of_nodeAt? hnone
      unfold compileNew at hrun
      split at hrun
      · exact visitBoolean_grows hnew hrun
      · exact visitObject_grows (hchildren _ rfl) hnew hrun
      all_goals exact (throw _).grows hrun

theorem compileNode (budget : Nat) (owner : Owner) (key pointer : String) (value : Json) :
    Growing (compileNode options budget owner key pointer value) := by
  -- On the levels that are left for children, which are visited with one level less.
  induction budget generalizing owner key pointer value with
  | zero => exact visit (by simp) ..
  | succ budget ih =>
    refine visit ?_ ..
    rintro compile ⟨⟩ site child
    exact ih ..

theorem compileRoot (options : CompileOptions) (key : String) :
    Growing (compileRoot options key) := by
  refine get fun c => ?_
  split
  · exact pure _
  · dsimp only
    split
    · exact compileNode ..
    · exact throw _

theorem anchorTarget (ref key name : String) : Growing (anchorTarget ref key name) := by
  refine get fun c => ?_
  split
  · exact pure _
  · exact throw _

theorem compileTarget (options : CompileOptions) (ref key pointer : String) (target : Json) :
    Growing (compileTarget options ref key pointer target) := by
  unfold CompileM.compileTarget
  split
  · exact (record ..).bind fun _ => compileNode ..
  · exact throw _

theorem pointerTarget (options : CompileOptions) (ref key fragment : String) :
    Growing (pointerTarget options ref key fragment) := by
  refine (lift ..).bind fun tokens => get fun c => ?_
  split
  · exact pure _
  · exact (lift ..).bind fun target => compileTarget ..

end Growing

end CompileM

end JsonSchema

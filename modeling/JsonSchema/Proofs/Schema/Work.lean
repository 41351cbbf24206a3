import JsonSchema.Proofs.Schema.Fetch
import JsonSchema.Proofs.Schema.WellFormed

/-!
# Every piece of work is done once

The loop over the references that wait comes to an end by itself, and on the way every document is
added once, every location gets one node, and every reference waits once.
-/

namespace JsonSchema

open CompileM

/-! ## The loop -/

namespace CompileM

def compileFirst (options : CompileOptions) (root : Json) : CompileM Unit := do
  addDocument options "" root
  let _ ← compileRoot options ""

/--
A compilation comes to this state between two references. It has called for the documents with the
keys `added`, the newest first, and the references in `left` have left the queue in this order.
-/
inductive Reaches (options : CompileOptions) (root : Json) :
    (added : List String) → (left : List PendingRef) → Compilation → Prop
  | first {c : Compilation} (h : Runs (compileFirst options root) {} (.ok ⟨⟩) c) :
      Reaches options root [""] [] c
  | next {added : List String} {left rest : List PendingRef} {first : PendingRef}
      {c c' : Compilation} (h : Reaches options root added left c)
      (hpending : c.pending = first :: rest)
      (hrun : Runs (resolveFirst options first rest) c (.ok ⟨⟩) c') :
      Reaches options root ((c.addition options first).toList ++ added) (left ++ [first]) c'

/-- A compilation ends in this state, with the documents and the references up to the end: at a
fault, or because no reference waits any more. -/
inductive Ends (options : CompileOptions) (root : Json) : (added : List String) →
    (left : List PendingRef) → Except CompileFault Unit → Compilation → Prop
  | refused {e : CompileFault} {c : Compilation}
      (h : Runs (compileFirst options root) {} (.error e) c) :
      Ends options root [""] [] (.error e) c
  | stopped {added : List String} {left rest : List PendingRef} {first : PendingRef}
      {c c' : Compilation} {e : CompileFault} (h : Reaches options root added left c)
      (hpending : c.pending = first :: rest)
      (hrun : Runs (resolveFirst options first rest) c (.error e) c') :
      Ends options root ((c.addition options first).toList ++ added) (left ++ [first]) (.error e) c'
  | drained {added : List String} {left : List PendingRef} {c : Compilation}
      (h : Reaches options root added left c) (hpending : c.pending = []) :
      Ends options root added left (.ok ⟨⟩) c

end CompileM

/-! ## What is done once -/

namespace Compilation

/--
Once the documents in `added` were taken in and the references in `left` have left the queue: no
document was taken in twice, no location has two nodes, and each reference of a node has been put
into the queue once.
-/
structure EachOnce (options : CompileOptions) (root : Json) (added : List String)
    (left : List PendingRef) (c : Compilation) : Prop where
  documentsOnce : added.Nodup
  sources : ∀ key ∈ added, (options.source? root key).isSome
  documents : Members.names c.documents <:+ added
  aligned : c.Aligned
  queuedOnce : ((left ++ c.pending).map (·.node)).Nodup
  started : ∀ p ∈ left ++ c.pending, p.node < c.nodes.size
  queued : ∀ id node, c.nodes[id]? = some (some node) →
    ∀ ref ∈ node.ref, ∃ key, ⟨id, ref, key⟩ ∈ left ++ c.pending

variable {options : CompileOptions} {root : Json} {c c₁ c' : Compilation} {added : List String}
  {left rest : List PendingRef} {first : PendingRef} {uri : String}

theorem EachOnce.grows {more found : List String} (h : EachOnce options root added left c)
    (hnodup : (more ++ added).Nodup) (hsources : ∀ key ∈ more, (options.source? root key).isSome)
    (hfound : found <:+ more) (hdocuments : Members.names c.documents = added)
    (hadds : Adds c c₁ found) (hgrows : Grows c₁ c') :
    EachOnce options root (more ++ added) left c' := by
  obtain ⟨entries, hpending, hlines⟩ := hgrows.pending
  rw [hadds.pending] at hpending
  rw [hadds.nodes] at hlines
  have hsize : c.nodes.size ≤ c'.nodes.size := hadds.nodes ▸ hgrows.size
  have hqueue : left ++ c'.pending = left ++ c.pending ++ entries := by
    rw [hpending, List.append_assoc]
  constructor
  case documentsOnce => exact hnodup
  case sources => exact List.forall_mem_append.mpr ⟨hsources, h.sources⟩
  case documents =>
    obtain ⟨before, rfl⟩ := hfound
    rw [hgrows.documents, hadds.documents, hdocuments]
    exact ⟨before, by rw [List.append_assoc]⟩
  case aligned =>
    exact hgrows.aligned ⟨by rw [hadds.nodes, hadds.locations, h.aligned.size],
      hadds.locations ▸ h.aligned.nodup⟩
  case queuedOnce =>
    rw [hqueue]
    exact nodup_pending h.queuedOnce hlines.once h.started fun p hp => (hlines.range p hp).1
  case started =>
    rw [hqueue]
    refine List.forall_mem_append.mpr ⟨fun p hp => ?_, fun p hp => (hlines.range p hp).2⟩
    exact Nat.lt_of_lt_of_le (h.started p hp) hsize
  case queued =>
    intro id node hnode ref href
    rw [hqueue]
    by_cases hold : id < c.nodes.size
    · rw [hgrows.nodes id (hadds.nodes ▸ hold), hadds.nodes] at hnode
      obtain ⟨key, hmem⟩ := h.queued id node hnode ref href
      exact ⟨key, List.mem_append_left _ hmem⟩
    · have hnew : c₁.nodes.size ≤ id := hadds.nodes ▸ Nat.not_lt.mp hold
      obtain ⟨key, hmem⟩ := hgrows.queued id node hnew hnode ref href
      rw [hpending] at hmem
      exact ⟨key, by rw [List.append_assoc]; exact List.mem_append_right _ hmem⟩

theorem EachOnce.leave (h : EachOnce options root added left c)
    (hpending : c.pending = first :: rest) :
    EachOnce options root added (left ++ [first]) { c with pending := rest } := by
  have hqueue : left ++ [first] ++ rest = left ++ c.pending := by rw [hpending, List.append_assoc]; rfl
  exact {
    documentsOnce := h.documentsOnce
    sources := h.sources
    documents := h.documents
    aligned := ⟨h.aligned.size, h.aligned.nodup⟩
    queuedOnce := by rw [hqueue]; exact h.queuedOnce
    started := by rw [hqueue]; exact h.started
    queued := by rw [hqueue]; exact h.queued }

theorem EachOnce.answered (h : EachOnce options root added left c) (log : Log)
    (targets : List (NodeId × NodeId)) :
    EachOnce options root added left { c with log, targets } where
  documentsOnce := h.documentsOnce
  sources := h.sources
  documents := h.documents
  aligned := ⟨h.aligned.size, h.aligned.nodup⟩
  queuedOnce := h.queuedOnce
  started := h.started
  queued := h.queued

end Compilation

/-! ## One step -/

namespace CompileM

open Compilation

variable {options : CompileOptions} {root : Json} {c c' : Compilation} {added : List String}
  {left rest : List PendingRef} {first : PendingRef} {id : NodeId}

theorem compileFirst_fetches {outcome : Except CompileFault Unit}
    (h : Runs (compileFirst options root) c outcome c') : Fetches [""] outcome c c' := by
  rcases runs_bind.mp h with ⟨e, rfl, hadd⟩ | ⟨_, c₁, hadd, h⟩
  · exact ⟨[], c', List.nil_suffix, nofun, addDocument_refused hadd, .refl c'⟩
  · exact ⟨[""], c₁, List.suffix_rfl, fun _ _ => rfl, addDocument_adds hadd,
      ((Growing.compileRoot options "").bind fun _ => .pure _).grows h⟩

theorem resolveFirst_fetches {outcome : Except CompileFault Unit}
    (h : Runs (resolveFirst options first rest) c outcome c') :
    ∃ c₁ log targets, Fetches (c.addition options first).toList outcome { c with pending := rest } c₁ ∧
      c' = { c₁ with log, targets } ∧
      (outcome = .ok ⟨⟩ → ∃ target, targets = (first.node, target) :: c.targets) := by
  replace h := runs_modify_bind.mp h
  rcases runs_bind.mp h with ⟨e, rfl, hresolve⟩ | ⟨target, c₁, hresolve, h⟩
  · exact ⟨c', c'.log, c'.targets, (resolveRef_fetches hresolve).failed, rfl, nofun⟩
  have hfetches := resolveRef_fetches hresolve
  obtain ⟨found, c₂, -, -, hadds, hgrows⟩ := id hfetches
  replace h := runs_modify_bind.mp (runs_get_bind.mp h)
  obtain ⟨rfl, rfl⟩ := runs_modify.mp h
  refine ⟨c₁, _, _, hfetches.more (.refl c₁), rfl, fun _ => ⟨target, ?_⟩⟩
  rw [hgrows.targets, hadds.targets]

theorem Fetches.names {α : Type} {called : List String} {a : α}
    (h : Fetches called (.ok a : Except CompileFault α) c c') :
    Members.names c'.documents = called ++ Members.names c.documents := by
  obtain ⟨found, c₁, -, hdone, hadds, hgrows⟩ := h
  rw [hgrows.documents, hadds.documents, hdone a rfl]

theorem Fetches.eachOnce {α : Type} {called : List String} {outcome : Except CompileFault α}
    (h : Fetches called outcome c c') (hc : EachOnce options root added left c)
    (hnodup : (called ++ added).Nodup) (hsources : ∀ key ∈ called, (options.source? root key).isSome)
    (hdocuments : Members.names c.documents = added) :
    EachOnce options root (called ++ added) left c' := by
  obtain ⟨found, c₁, hfound, -, hadds, hgrows⟩ := h
  exact hc.grows hnodup hsources hfound hdocuments hadds hgrows

theorem eachOnce_empty : EachOnce options root [] [] {} where
  documentsOnce := List.nodup_nil
  sources := by simp
  documents := List.suffix_rfl
  aligned := ⟨rfl, List.nodup_nil⟩
  queuedOnce := List.nodup_nil
  started := by simp
  queued := by simp

theorem eachOnce_first {outcome : Except CompileFault Unit}
    (h : Runs (compileFirst options root) {} outcome c) : EachOnce options root [""] [] c :=
  (compileFirst_fetches h).eachOnce eachOnce_empty (by simp) (by simp [CompileOptions.source?]) rfl

theorem addition_new (hloaded : c.Loaded options root) (hdocuments : Members.names c.documents = added)
    (hadded : added.Nodup) :
    ((c.addition options first).toList ++ added).Nodup ∧
      ∀ key ∈ (c.addition options first).toList, (options.source? root key).isSome := by
  cases hcalled : c.addition options first with
  | none => exact ⟨hadded, by simp⟩
  | some uri =>
    obtain ⟨hempty, hnew, hregistered⟩ := addition_eq_some hcalled
    refine ⟨List.nodup_cons.mpr ⟨fun hmem => ?_, hadded⟩, ?_⟩
    case refine_2 => simpa [CompileOptions.source?, hempty] using hregistered
    obtain ⟨⟨key, document⟩, hentry, rfl⟩ := List.mem_map.mp (hdocuments ▸ hmem)
    have halias := (hloaded.aliases key key).mpr ⟨document, hentry, .inl rfl⟩
    exact Members.get?_eq_none_iff.mp hnew (List.mem_map.mpr ⟨_, halias, rfl⟩)

theorem eachOnce_next {outcome : Except CompileFault Unit}
    (h : EachOnce options root added left c) (hloaded : c.Loaded options root)
    (hdocuments : Members.names c.documents = added) (hpending : c.pending = first :: rest)
    (hrun : Runs (resolveFirst options first rest) c outcome c') :
    EachOnce options root ((c.addition options first).toList ++ added) (left ++ [first]) c' := by
  obtain ⟨c₁, log, targets, hfetches, rfl, -⟩ := resolveFirst_fetches hrun
  obtain ⟨hnodup, hsources⟩ := addition_new hloaded hdocuments h.documentsOnce
  exact (hfetches.eachOnce (h.leave hpending) hnodup hsources hdocuments).answered log targets

/-! ## The whole run -/

structure Progress (options : CompileOptions) (root : Json) (added : List String)
    (left : List PendingRef) (c : Compilation) : Prop where
  sound : Sound options root [] c
  located : c.Located "" "" 0
  settled : c.Settled options
  eachOnce : EachOnce options root added left c
  documents : Members.names c.documents = added
  targets : c.targets.map (·.1) = (left.map (·.node)).reverse

theorem Reaches.progress (h : Reaches options root added left c) :
    Progress options root added left c := by
  induction h with
  | first h =>
    have hfetches := compileFirst_fetches h
    obtain ⟨found, c₁, -, -, hadds, hgrows⟩ := id hfetches
    have hall := h
    obtain ⟨_, c₂, hadd, h⟩ := runs_bind_ok.mp h
    obtain ⟨declared, warnings, log, hdeclared, haccepts, rfl⟩ := addDocument_ok hadd
    obtain ⟨id, c₃, hroot, h⟩ := runs_bind_ok.mp h
    obtain ⟨-, rfl⟩ := runs_pure.mp h
    obtain ⟨hsound, hlocated, hsettled⟩ := compileRoot_sound hdeclared haccepts hroot
    exact {
      sound := hsound
      located := hlocated
      settled := hsettled
      eachOnce := eachOnce_first hall
      documents := hfetches.names
      targets := by rw [hgrows.targets, hadds.targets]; rfl }
  | next h hpending hrun ih =>
    obtain ⟨hsound, -, hextends, hsettled⟩ := resolveFirst_sound ih.sound hpending hrun
    have honce := eachOnce_next ih.eachOnce ih.sound.loaded ih.documents hpending hrun
    obtain ⟨c₁, log, targets, hfetches, rfl, hanswered⟩ := resolveFirst_fetches hrun
    obtain ⟨target, rfl⟩ := hanswered rfl
    exact {
      sound := hsound
      located := hextends.located ih.located
      settled := hsettled ih.settled
      eachOnce := honce
      documents := hfetches.names.trans (congrArg _ ih.documents)
      targets := by simp [ih.targets] }

/-- As many references have left the queue, and wait in it, as a compilation can have nodes. -/
theorem Progress.length_le (h : Progress options root added left c) :
    left.length + c.pending.length ≤ refLimit options root := by
  have htargets := congrArg List.length h.targets
  simp only [List.length_map, List.length_reverse] at htargets
  have hsize := h.sound.size_le
  have hlength := h.sound.targets_length_le
  rw [List.nil_append] at hlength
  omega

theorem Progress.finished (h : Progress options root added left c) (hpending : c.pending = []) :
    Finished options root c :=
  ⟨h.sound, hpending, h.located, h.settled⟩

/-- The limit on references is never what ends the loop. -/
theorem resolvePending_ends {fuel : Nat} {outcome : Except CompileFault Unit}
    (h : Reaches options root added left c) (hfuel : refLimit options root ≤ left.length + fuel)
    (hrun : Runs (resolvePending options fuel) c outcome c') :
    ∃ added left, Ends options root added left outcome c' := by
  induction fuel generalizing added left c with
  | zero =>
    obtain ⟨rfl, rfl⟩ := runs_pure.mp hrun
    have hlength := h.progress.length_le
    exact ⟨_, _, .drained h (List.length_eq_zero_iff.mp (by omega))⟩
  | succ fuel ih =>
    replace hrun := runs_get_bind.mp hrun
    split at hrun
    case h_1 hnone =>
      obtain ⟨rfl, rfl⟩ := runs_pure.mp hrun
      exact ⟨_, _, .drained h hnone⟩
    case h_2 first rest hpending =>
      rcases runs_bind.mp hrun with ⟨e, rfl, hfirst⟩ | ⟨_, c₁, hfirst, hrun⟩
      · exact ⟨_, _, .stopped h hpending hfirst⟩
      · exact ih (.next h hpending hfirst) (by simp; omega) hrun

theorem compileDocument_eq (options : CompileOptions) (root : Json) :
    compileDocument options root = (do
      compileFirst options root
      resolvePending options (refLimit options root)
      let c ← get
      let compiled := c.freeze
      record LogLevel.debug
        ("Compiled schema: " ++ natText compiled.nodes.size ++ " nodes, draft " ++
          compiled.draft.name ++ ", " ++ natText c.targets.length ++ " references")
      return compiled) := by
  simp only [compileDocument, compileFirst, bind_assoc, pure_bind]

theorem compileDocument_ends {outcome : Except CompileFault CompiledSchema}
    (hrun : Runs (compileDocument options root) {} outcome c) :
    ∃ added left ended c', Ends options root added left ended c' ∧
      outcome = ended.map fun _ => c'.freeze := by
  rw [compileDocument_eq] at hrun
  rcases runs_bind.mp hrun with ⟨e, rfl, hfirst⟩ | ⟨_, c₁, hfirst, hrun⟩
  · exact ⟨_, _, _, _, .refused hfirst, rfl⟩
  have hreaches : Reaches options root [""] [] c₁ := .first hfirst
  rcases runs_bind.mp hrun with ⟨e, rfl, hresolve⟩ | ⟨_, c₂, hresolve, hrun⟩
  · obtain ⟨added, left, hends⟩ := resolvePending_ends hreaches (by simp) hresolve
    exact ⟨added, left, _, _, hends, rfl⟩
  · obtain ⟨added, left, hends⟩ := resolvePending_ends hreaches (by simp) hresolve
    replace hrun := runs_modify_bind.mp (runs_get_bind.mp hrun)
    obtain ⟨rfl, -⟩ := runs_pure.mp hrun
    exact ⟨added, left, _, _, hends, rfl⟩

end CompileM

/-! ## Compilations that succeed -/

namespace CompiledSchema

variable {schema : CompiledSchema}

theorem WellFormed.ids (h : schema.WellFormed) :
    schema.nodes.toList.map (·.id) = List.range schema.nodes.size := by
  refine List.ext_getElem (by simp) fun id hid _ => ?_
  rw [List.length_map, Array.length_toList] at hid
  have hnode : schema.node? id = some schema.nodes[id] := Array.getElem?_eq_getElem hid
  simp [h.index id _ hnode]

def referring (schema : CompiledSchema) : List NodeId :=
  (schema.nodes.toList.filter (·.ref.isSome)).map (·.id)

theorem length_referring : schema.referring.length = schema.referenceCount := by
  rw [referring, referenceCount, List.length_map, ← Array.toList_filter, Array.length_toList]

theorem WellFormed.nodup_referring (h : schema.WellFormed) : schema.referring.Nodup := by
  have hsublist : schema.referring.Sublist (schema.nodes.toList.map (·.id)) :=
    List.filter_sublist.map _
  rw [h.ids] at hsublist
  exact hsublist.nodup List.nodup_range

theorem WellFormed.mem_referring {id : NodeId} (h : schema.WellFormed) :
    id ∈ schema.referring ↔ ∃ node, schema.node? id = some node ∧ node.ref.isSome := by
  constructor
  · intro hmem
    obtain ⟨node, hnode, rfl⟩ := List.mem_map.mp hmem
    obtain ⟨hnode, href⟩ := List.mem_filter.mp hnode
    obtain ⟨index, hindex⟩ := List.mem_iff_getElem?.mp hnode
    have hfound : schema.node? index = some node := by rw [node?, ← Array.getElem?_toList, hindex]
    exact ⟨node, h.index index node hfound ▸ hfound, href⟩
  · rintro ⟨node, hnode, href⟩
    have hmem : node ∈ schema.nodes.toList := Array.mem_toList_iff.mpr (Array.mem_of_getElem? hnode)
    exact List.mem_map.mpr ⟨node, List.mem_filter.mpr ⟨hmem, href⟩, h.index id node hnode⟩

theorem WellFormed.existsUnique_node {location : String} (h : schema.WellFormed)
    (hmem : location ∈ schema.locations) :
    ∃! id, ∃ node, schema.node? id = some node ∧ node.location = location := by
  cases hindex : schema.locations.idxOf? location with
  | none => exact absurd hmem (Array.idxOf?_eq_none_iff.mp hindex)
  | some id =>
    refine ⟨id, (h.lookup location id).mp hindex, fun other hother => ?_⟩
    exact Option.some.inj (((h.lookup location other).mpr hother).symm.trans hindex)

end CompiledSchema

namespace Compilation.Finished

variable {options : CompileOptions} {root : Json} {c : Compilation}

theorem length_targets (h : Finished options root c) :
    c.targets.length = c.freeze.referenceCount := by
  have hwell := h.wellFormed
  have hnodup : (c.targets.map (·.1)).Nodup := (List.nodup_append.mp h.sound.once).1
  have hperm : (c.targets.map (·.1)).Perm c.freeze.referring := by
    refine (List.perm_ext_iff_of_nodup hnodup hwell.nodup_referring).mpr fun id => ?_
    rw [hwell.mem_referring]
    constructor
    · intro hmem
      obtain ⟨entry, hentry, rfl⟩ := List.mem_map.mp hmem
      obtain ⟨ref, key, site, value, node, hbuilt, -, href⟩ := h.sound.answered entry hentry
      exact ⟨_, h.node?_of_built hbuilt, by simp [href]⟩
    · rintro ⟨found, hfound, hsome⟩
      obtain ⟨site, value, node, hbuilt, rfl⟩ := h.built_of_node? hfound
      obtain ⟨ref, href⟩ := Option.isSome_iff_exists.mp hsome
      obtain ⟨target, hlookup, -⟩ := h.lookup_of_ref hbuilt href
      exact List.mem_map.mpr ⟨_, mem_of_lookup hlookup, rfl⟩
  rw [← CompiledSchema.length_referring, ← hperm.length_eq, List.length_map]

end Compilation.Finished

/-! ## All compilations -/

open Compilation

/--
A compilation ends, by the queue of references running empty or by a fault, and does each piece of
work once. Until then each document is called for once, each location has one node, and each node
with a reference has put it into the queue once, from where it left once at most. Where it
succeeds, the references that left are those of all nodes that have one, each with its target.
-/
theorem work_done_once (options : CompileOptions) (root : Json) :
    (∃ added left outcome c, Ends options root added left outcome c ∧
      (runCompile options root).result = outcome.map fun _ => c.freeze) ∧
    (∀ added left c, Reaches options root added left c →
      left.length ≤ refLimit options root ∧ EachOnce options root added left c) ∧
    ∀ added left outcome c, Ends options root added left outcome c →
      left.length ≤ refLimit options root ∧ EachOnce options root added left c ∧
      (outcome = .ok ⟨⟩ → c.pending = [] ∧
        c.targets.map (·.1) = (left.map (·.node)).reverse ∧
        c.targets.length = c.freeze.referenceCount ∧
        ∀ location ∈ c.freeze.locations, ∃! id, ∃ node,
          c.freeze.node? id = some node ∧ node.location = location) := by
  have hreaches : ∀ added left c, Reaches options root added left c →
      left.length ≤ refLimit options root ∧ EachOnce options root added left c := by
    intro added left c h
    exact ⟨Nat.le_trans (Nat.le_add_right _ _) h.progress.length_le, h.progress.eachOnce⟩
  refine ⟨?_, hreaches, ?_⟩
  · obtain ⟨c, hrun⟩ := @runs_of_result options root _ rfl
    obtain ⟨added, left, outcome, c', hends, hresult⟩ := compileDocument_ends hrun
    exact ⟨added, left, outcome, c', hends, hresult⟩
  intro added left outcome c h
  cases h with
  | refused h => exact ⟨Nat.zero_le _, eachOnce_first h, nofun⟩
  | @stopped added left rest first c c' e h hpending hrun =>
    have hprogress := h.progress
    have hlength := hprogress.length_le
    rw [hpending, List.length_cons] at hlength
    refine ⟨by simp; omega, ?_, nofun⟩
    exact eachOnce_next hprogress.eachOnce hprogress.sound.loaded hprogress.documents hpending hrun
  | drained h hpending =>
    obtain ⟨hlength, honce⟩ := hreaches _ _ _ h
    have hfinished := h.progress.finished hpending
    refine ⟨hlength, honce, fun _ => ⟨hpending, h.progress.targets, hfinished.length_targets, ?_⟩⟩
    exact fun location hmem => hfinished.wellFormed.existsUnique_node hmem

def circle : CompileOptions where
  maxDepth := 10
  strict := true
  registry := [
    ("http://x/a", .obj [("items", .obj [("$ref", .str "http://x/b#/more")]),
      ("not", .obj [("$ref", .str "#")])]),
    ("http://x/b", .obj [("more", .obj [("$ref", .str "http://x/a")])])]

def circleRoot : Json :=
  .obj [("anyOf", .arr [.obj [("$ref", .str "http://x/a")], .obj [("$ref", .str "#/far")]]),
    ("far", .obj [("$ref", .str "#/anyOf/0")])]

theorem circle_done_once : ∃ added left c, Ends circle circleRoot added left (.ok ⟨⟩) c ∧
    EachOnce circle circleRoot added left c ∧ left.length = 6 ∧ c.freeze.referenceCount = 6 := by
  have hrun : (runCompile circle circleRoot).result.toOption.map (·.referenceCount) = some 6 := by
    decide +kernel
  obtain ⟨⟨added, left, outcome, c, hends, hresult⟩, -, hall⟩ := work_done_once circle circleRoot
  obtain ⟨-, honce, hsucceeds⟩ := hall added left outcome c hends
  rw [hresult] at hrun
  cases outcome with
  | error e => cases hrun
  | ok u =>
    have hcount : c.freeze.referenceCount = 6 := Option.some.inj hrun
    obtain ⟨-, htargets, hlength, -⟩ := hsucceeds rfl
    have hleft := congrArg List.length htargets
    rw [List.length_map, List.length_reverse, List.length_map, hlength, hcount] at hleft
    exact ⟨added, left, c, hends, honce, hleft.symm, hcount⟩

end JsonSchema

import JsonSchema.Proofs.Schema.Parallel
import JsonSchema.Proofs.Schema.Replay
import JsonSchema.Proofs.Schema.Work
import JsonSchema.Proofs.Uri.Own

/-!
# A document under a key

A document that is compiled by itself has the empty key, and no other document is there. Taken in
under a key from the registry it is walked over in the same way, and its references stay in it.
-/

namespace JsonSchema

open CompileM

namespace Compilation

/--
`c` has nothing but a document that it compiles by itself, and `d` has taken in the same document
under a key: it has met the same places and anchors, and the same references wait.
-/
structure Moved (key : String) (content : Json) (first : SourceDocument) (c d : Compilation) :
    Prop where
  documents : ∃ declaration, c.documents = [("", ⟨"", content, "", declaration⟩)] ∧
    d.documents = [(key, ⟨key, content, key, declaration⟩), ("", first)]
  aliases : c.aliases = [("", "")]
  places : ∀ pointer, locationOf "" pointer ∈ c.locations.toList ↔
    locationOf key pointer ∈ d.locations.toList
  anchors : ∀ name, (∃ id, (("", name), id) ∈ c.anchors) → ∃ id, ((key, name), id) ∈ d.anchors
  pending : List.Forall₂ (fun p q : PendingRef => p.ref = q.ref ∧ p.key = "" ∧ q.key = key)
    c.pending d.pending

variable {key : String} {content : Json} {first : SourceDocument} {c d : Compilation}

theorem Moved.source (h : Moved key content first c d) : ∃ declaration,
    Members.get? c.documents "" = some ⟨"", content, "", declaration⟩ ∧
      Members.get? d.documents key = some ⟨key, content, key, declaration⟩ := by
  obtain ⟨declaration, hc, hd⟩ := h.documents
  exact ⟨declaration, by simp [hc, Members.get?], by simp [hd, Members.get?]⟩

theorem Moved.contentOf (h : Moved key content first c d) : c.contentOf "" = d.contentOf key := by
  obtain ⟨declaration, hc, hd⟩ := h.source
  rw [contentOf_eq hc, contentOf_eq hd]

theorem Moved.declarationOf (h : Moved key content first c d) :
    c.declarationOf "" = d.declarationOf key := by
  obtain ⟨declaration, hc, hd⟩ := h.source
  simp [Compilation.declarationOf, hc, hd]

theorem Moved.isSome_nodeAt? (h : Moved key content first c d) (pointer : String) :
    (c.nodeAt? (locationOf "" pointer)).isSome = (d.nodeAt? (locationOf key pointer)).isSome := by
  rw [Bool.eq_iff_iff, nodeAt?, nodeAt?, Array.isSome_idxOf?, Array.isSome_idxOf?]
  simpa using h.places pointer

end Compilation

namespace CompileM

open Compilation

variable {options options' : CompileOptions} {key : String} {content : Json}
  {first : SourceDocument} {c d e : Compilation}

/-! ## Steps -/

theorem deaf_moved : Deaf (Moved key content first) :=
  fun _ _ _ _ _ _ h => ⟨h.documents, h.aliases, h.places, h.anchors, h.pending⟩

theorem locationOf_injective {pointer pointer' : String} :
    locationOf key pointer = locationOf key pointer' ↔ pointer = pointer' := by
  simp [locationOf, ← String.toList_inj]

theorem reserve_together (pointer : String) :
    Together (Moved key content first) (reserve (locationOf "" pointer))
      (reserve (locationOf key pointer)) := by
  intro c d a c' h hrun
  obtain ⟨-, rfl⟩ := runs_reserve.mp hrun
  refine ⟨_, _, runs_reserve.mpr ⟨rfl, rfl⟩, ⟨h.documents, h.aliases, fun other => ?_, h.anchors,
    h.pending⟩, trivial⟩
  simp only [reserved, Array.toList_push, List.mem_append, List.mem_singleton, locationOf_injective,
    h.places other]

theorem place_together (node node' : SchemaNode) :
    Together (Moved key content first) (place node) (place node') := by
  intro c d a c' h hrun
  obtain ⟨-, rfl⟩ := runs_modify.mp hrun
  exact ⟨⟨⟩, _, runs_modify.mpr ⟨rfl, rfl⟩,
    ⟨h.documents, h.aliases, h.places, h.anchors, h.pending⟩, trivial⟩

theorem postpone_together (id id' : NodeId) (ref : Option String) :
    Together (Moved key content first) (postpone id ref "") (postpone id' ref key) := by
  intro c d a c' h hrun
  obtain ⟨-, rfl⟩ := runs_modify.mp hrun
  refine ⟨⟨⟩, _, runs_modify.mpr ⟨rfl, rfl⟩,
    ⟨h.documents, h.aliases, h.places, h.anchors, List.rel_append h.pending ?_⟩, trivial⟩
  cases ref with
  | none => exact .nil
  | some ref => exact .cons ⟨rfl, rfl, rfl⟩ .nil

theorem declareAnchors_together (names : List String) (id id' : NodeId) :
    Together (Moved key content first) (declareAnchors "" names id) (declareAnchors key names id') := by
  intro c d a c' h hrun
  obtain ⟨-, rfl⟩ := runs_modify.mp hrun
  refine ⟨⟨⟩, _, runs_modify.mpr ⟨rfl, rfl⟩,
    ⟨h.documents, h.aliases, h.places, fun name hname => ?_, h.pending⟩, trivial⟩
  obtain ⟨found, hfound⟩ := hname
  rcases List.mem_append.mp hfound with hnew | hold
  · obtain ⟨name', hmem, heq⟩ := List.mem_map.mp (List.mem_reverse.mp hnew)
    cases heq
    exact ⟨id', List.mem_append_left _ (List.mem_reverse.mpr (List.mem_map.mpr ⟨_, hmem, rfl⟩))⟩
  · obtain ⟨found', hfound'⟩ := h.anchors name ⟨found, hold⟩
    exact ⟨found', List.mem_append_right _ hfound'⟩

theorem readIdentity_together (pointer : String) (declaration : DraftDeclaration) (id id' : NodeId)
    (schema : Members Json) :
    Together (Moved key content first) (readIdentity ⟨"", pointer, declaration⟩ id schema)
      (readIdentity ⟨key, pointer, declaration⟩ id' schema) := by
  refine (Parallel.reading _ _ _).bind fun ref _ href => ?_
  subst href
  refine (postpone_together id id' ref).bind fun _ _ _ =>
    (Parallel.reading _ _ _).bind fun names _ hnames => ?_
  subst hnames
  exact (declareAnchors_together names id id').bind fun _ _ _ => .pure trivial

/-! ## Walks -/

theorem compileNew_together (hstrict : options.strict = options'.strict)
    {compile compile' : CompileChild} (owner owner' : Owner) (pointer : String)
    (declaration : DraftDeclaration) (value : Json)
    (hcompile : ∀ child, Together (Moved key content first)
      (compile ⟨"", pointer, declaration⟩ child) (compile' ⟨key, pointer, declaration⟩ child)) :
    Together (Moved key content first)
      (compileNew options (some compile) owner ⟨"", pointer, declaration⟩ value)
      (compileNew options' (some compile') owner' ⟨key, pointer, declaration⟩ value) := by
  cases value with
  | bool b =>
    exact (reserve_together pointer).bind fun _ _ _ => (place_together _ _).bind fun _ _ _ =>
      .pure trivial
  | obj schema =>
    refine (reserve_together pointer).bind fun id id' _ => ?_
    have hnode : Together (Moved key content first)
        (compileObjectSchema options compile ⟨"", pointer, declaration⟩ id schema)
        (compileObjectSchema options' compile' ⟨key, pointer, declaration⟩ id' schema) :=
      (readIdentity_together pointer declaration id id' schema).bind fun _ _ _ =>
        (Parallel.compileKeywords (fun child => (hcompile child).mono fun _ _ _ => False.elim) schema
          rfl (Parallel.warnUnknown schema deaf_moved hstrict) _ _ _ _ False.elim).mono
          fun _ _ _ => trivial
    exact hnode.bind fun _ _ _ => (place_together _ _).bind fun _ _ _ => .pure trivial
  | _ => exact .throw _ _

theorem known_together (pointer : String) {f g : Compilation → CompileM NodeId}
    (hnew : ∀ c d a c', Moved key content first c d → Runs (f c) c (.ok a) c' →
      ∃ b d', Runs (g d) d (.ok b) d' ∧ Moved key content first c' d' ∧ True) :
    Together (Moved key content first)
      (do
        let c ← get
        match c.nodeAt? (locationOf "" pointer) with
        | some id => return id
        | none => f c)
      (do
        let d ← get
        match d.nodeAt? (locationOf key pointer) with
        | some id => return id
        | none => g d) := by
  intro c d a c' h hrun
  have hsome := h.isSome_nodeAt? pointer
  replace hrun := runs_get_bind.mp hrun
  simp only [runs_get_bind]
  cases hknown : c.nodeAt? (locationOf "" pointer) with
  | some id =>
    rw [hknown] at hrun hsome
    obtain ⟨-, rfl⟩ := runs_pure.mp hrun
    obtain ⟨id', hknown'⟩ := Option.isSome_iff_exists.mp hsome.symm
    rw [hknown']
    exact ⟨id', d, runs_pure.mpr ⟨rfl, rfl⟩, h, trivial⟩
  | none =>
    rw [hknown] at hrun hsome
    rw [Option.isNone_iff_eq_none.mp (Option.isSome_eq_false_iff.mp hsome.symm)]
    exact hnew c d a c' h hrun

theorem visit_together {children children' : Option CompileChild} {owner owner' : Owner}
    {pointer : String} {value : Json}
    (hnew : ∀ declaration, Together (Moved key content first)
      (compileNew options children owner ⟨"", pointer, declaration⟩ value)
      (compileNew options' children' owner' ⟨key, pointer, declaration⟩ value)) :
    Together (Moved key content first) (visit options children owner "" pointer value)
      (visit options' children' owner' key pointer value) :=
  known_together pointer fun c d a c' h hrun => hnew _ c d a c' h (h.declarationOf ▸ hrun)

theorem compileNode_together (hstrict : options.strict = options'.strict) (budget : Nat)
    (owner owner' : Owner) (pointer : String) (value : Json) :
    Together (Moved key content first) (compileNode options budget owner "" pointer value)
      (compileNode options' budget owner' key pointer value) := by
  induction budget generalizing owner owner' pointer value with
  | zero =>
    refine visit_together fun declaration => ?_
    unfold compileNew
    split <;> first | exact .throw _ _ | rename_i h; cases h
  | succ budget ih =>
    exact visit_together fun declaration =>
      compileNew_together hstrict owner owner' pointer declaration value fun child => ih _ _ _ _

theorem compileEntry_together (hstrict : options.strict = options'.strict)
    (hdepth : options.maxDepth = options'.maxDepth) (pointer : String) (value : Json) :
    Together (Moved key content first) (compileEntry options "" pointer value)
      (compileEntry options' key pointer value) := by
  unfold compileEntry
  rw [hdepth]
  exact compileNode_together hstrict _ _ _ _ _

theorem compileRoot_together (hstrict : options.strict = options'.strict)
    (hdepth : options.maxDepth = options'.maxDepth) :
    Together (Moved key content first) (compileRoot options "") (compileRoot options' key) := by
  refine known_together "" fun c d a c' h hrun => ?_
  simp only [h.contentOf] at hrun
  split at hrun
  case isTrue hschema =>
    simp only [if_pos hschema]
    exact compileEntry_together hstrict hdepth _ _ c d a c' h hrun
  case isFalse => cases (runs_throw.mp hrun).1

/-! ## References -/

theorem anchorTarget_together (ref name : String) :
    Together (Moved key content first) (anchorTarget ref "" name) (anchorTarget ref key name) := by
  intro c d a c' h hrun
  obtain ⟨rfl, hanchor⟩ := anchorTarget_ok hrun
  obtain ⟨id, hanchor'⟩ := h.anchors name ⟨a, hanchor⟩
  obtain ⟨b, hrun'⟩ := anchorTarget_completes ref hanchor'
  exact ⟨b, d, hrun', h, trivial⟩

theorem compileTarget_together (hstrict : options.strict = options'.strict)
    (hdepth : options.maxDepth = options'.maxDepth) (ref pointer : String) (target : Json) :
    Together (Moved key content first) (compileTarget options ref "" pointer target)
      (compileTarget options' ref key pointer target) := by
  unfold compileTarget
  split
  case isTrue =>
    exact (Parallel.record deaf_moved _ _ _ _).bind fun _ _ _ =>
      compileEntry_together hstrict hdepth _ _
  case isFalse => exact .throw _ _

theorem pointerTarget_together (hstrict : options.strict = options'.strict)
    (hdepth : options.maxDepth = options'.maxDepth) (ref fragment : String) :
    Together (Moved key content first) (pointerTarget options ref "" fragment)
      (pointerTarget options' ref key fragment) := by
  refine (Parallel.lift fun _ h => h).bind fun tokens _ htokens => ?_
  obtain ⟨rfl, -⟩ := htokens
  refine known_together (Pointer.ofTokens tokens) fun c d a c' h hrun => ?_
  rw [h.contentOf] at hrun
  obtain ⟨target, c₁, hlift, hrun⟩ := runs_bind_ok.mp hrun
  obtain ⟨hresolve, rfl⟩ := runs_lift_ok.mp hlift
  obtain ⟨b, d', hrun', hend⟩ := compileTarget_together hstrict hdepth _ _ _ c d a c' h hrun
  exact ⟨b, d', runs_bind_ok.mpr ⟨target, d, runs_lift_ok.mpr ⟨hresolve, rfl⟩, hrun'⟩, hend⟩

/-- Where nothing is registered, a reference keeps to the document, and does so under the key. -/
theorem resolveRef_together (hstrict : options.strict = options'.strict)
    (hdepth : options.maxDepth = options'.maxDepth) (hregistry : options.registry = [])
    (hspelled : Uri.Spelled key) (hkey : key ≠ "") {ref : String} (hkeeps : Uri.KeepsTo key ref) :
    Together (Moved key content first) (resolveRef options ref "") (resolveRef options' ref key) := by
  intro c d a c' h hrun
  obtain ⟨declaration, hc, hd⟩ := h.source
  replace hrun := runs_get_bind.mp hrun
  rw [baseOf_eq hc] at hrun
  obtain ⟨⟨uri, fragment⟩, c₁, hlift, hrun⟩ := runs_bind_ok.mp hrun
  obtain ⟨hlocate, rfl⟩ := runs_lift_ok.mp hlift
  obtain ⟨target, c₁, htarget, hrun⟩ := runs_bind_ok.mp hrun
  have huri : uri = "" := by
    by_cases hempty : uri = ""
    · exact hempty
    have hother : isOwnUri "" uri = false := by simp [isOwnUri, hempty]
    rw [targetDocument, if_neg (by simp [hother])] at htarget
    obtain ⟨found, c₂, htake, -⟩ := runs_bind_ok.mp htarget
    replace htake := runs_get_bind.mp htake
    have halias : Members.get? c.aliases uri = none := by
      simp [h.aliases, Members.get?, hempty]
    rw [halias, hregistry] at htake
    cases (runs_throw.mp htake).1
  subst huri
  obtain ⟨htarget, rfl⟩ := runs_pure.mp htarget
  cases htarget
  obtain ⟨uri', hlocate', hown⟩ := Uri.locate_own hspelled hkey hkeeps hlocate
  have hsame : isOwnUri key uri' = true := by rcases hown with rfl | rfl <;> simp [isOwnUri]
  have hnode : Together (Moved key content first)
      (if isAnchorFragment fragment then anchorTarget ref "" fragment
        else pointerTarget options ref "" fragment)
      (if isAnchorFragment fragment then anchorTarget ref key fragment
        else pointerTarget options' ref key fragment) := by
    split
    · exact anchorTarget_together ref fragment
    · exact pointerTarget_together hstrict hdepth ref fragment
  obtain ⟨b, d', hrun', hend⟩ := hnode c d a c' h hrun
  refine ⟨b, d', runs_get_bind.mpr ?_, hend⟩
  rw [baseOf_eq hd]
  refine runs_bind_ok.mpr ⟨(uri', fragment), d, runs_lift_ok.mpr ⟨hlocate', rfl⟩, ?_⟩
  refine runs_bind_ok.mpr ⟨key, d, ?_, hrun'⟩
  rw [targetDocument, if_pos hsame]
  exact runs_pure.mpr ⟨rfl, rfl⟩

theorem resolveFirst_together (hstrict : options.strict = options'.strict)
    (hdepth : options.maxDepth = options'.maxDepth) (hregistry : options.registry = [])
    (hspelled : Uri.Spelled key) (hkey : key ≠ "") {p : PendingRef} {rest : List PendingRef}
    {u : Unit} (hkeeps : Uri.KeepsTo key p.ref) (h : Moved key content first c d)
    (hpending : c.pending = p :: rest) (hrun : Runs (resolveFirst options p rest) c (.ok u) e) :
    ∃ p' rest' d', d.pending = p' :: rest' ∧
      Runs (resolveFirst options' p' rest') d (.ok ⟨⟩) d' ∧ Moved key content first e d' := by
  have hsame := h.pending
  rw [hpending] at hsame
  cases hd : d.pending with
  | nil => rw [hd] at hsame; cases hsame
  | cons p' rest' =>
    rw [hd] at hsame
    obtain ⟨⟨href, hold, hnew⟩, hrest⟩ := List.forall₂_cons.mp hsame
    replace hrun := runs_modify_bind.mp hrun
    obtain ⟨target, c₁, hresolve, hrun⟩ := runs_bind_ok.mp hrun
    replace hrun := runs_modify_bind.mp (runs_get_bind.mp hrun)
    obtain ⟨-, rfl⟩ := runs_modify.mp hrun
    rw [hold] at hresolve
    obtain ⟨target', d₁, hresolve', h', -⟩ := resolveRef_together hstrict hdepth hregistry hspelled
      hkey hkeeps { c with pending := rest } { d with pending := rest' } target c₁
      ⟨h.documents, h.aliases, h.places, h.anchors, hrest⟩ hresolve
    refine ⟨p', rest', _, rfl, runs_modify_bind.mpr (runs_bind_ok.mpr ⟨target', d₁, ?_,
      runs_get_bind.mpr (runs_modify_bind.mpr (runs_modify.mpr ⟨rfl, rfl⟩))⟩), ?_⟩
    · rw [← href, hnew]
      exact hresolve'
    · exact ⟨h'.documents, h'.aliases, h'.places, h'.anchors, h'.pending⟩


/-! ## All references -/

theorem resolvePending_nodes {fuel : Nat} {outcome : Except CompileFault Unit} {id : NodeId}
    (hrun : Runs (resolvePending options fuel) c outcome e) (hid : id < c.nodes.size) :
    e.nodes[id]? = c.nodes[id]? := by
  induction fuel generalizing c with
  | zero =>
    obtain ⟨-, rfl⟩ := runs_pure.mp hrun
    rfl
  | succ fuel ih =>
    have hfirst : ∀ {p rest} {outcome : Except CompileFault Unit} {c₁},
        Runs (resolveFirst options p rest) c outcome c₁ →
          c.nodes.size ≤ c₁.nodes.size ∧ c₁.nodes[id]? = c.nodes[id]? := by
      intro p rest outcome c₁ h
      obtain ⟨c₂, log, targets, ⟨found, c₃, -, -, hadds, hgrows⟩, rfl, -⟩ := resolveFirst_fetches h
      have hnodes : c₃.nodes = c.nodes := hadds.nodes
      exact ⟨hnodes ▸ hgrows.size, hnodes ▸ hgrows.nodes id (hnodes ▸ hid)⟩
    replace hrun := runs_get_bind.mp hrun
    split at hrun
    case h_1 =>
      obtain ⟨-, rfl⟩ := runs_pure.mp hrun
      rfl
    case h_2 p rest hpending =>
      rcases runs_bind.mp hrun with ⟨fault, -, h⟩ | ⟨_, c₁, h, hrun⟩
      · exact (hfirst h).2
      · obtain ⟨hsize, hnode⟩ := hfirst h
        exact (ih hrun (Nat.lt_of_lt_of_le hid hsize)).trans hnode

theorem resolvePending_together (hstrict : options.strict = options'.strict)
    (hdepth : options.maxDepth = options'.maxDepth) (hregistry : options.registry = [])
    (hspelled : Uri.Spelled key) (hkey : key ≠ "") {fuel : Nat} (fuel' : Nat) {u : Unit}
    (hsound : Sound options content [] c) (h : Moved key content first c d)
    (hrun : Runs (resolvePending options fuel) c (.ok u) e) (hdone : e.pending = [])
    (hkeeps : ∀ (id : NodeId) (node : SchemaNode) (ref : String),
      e.nodes[id]? = some (some node) → node.ref = some ref → Uri.KeepsTo key ref) :
    ∃ c' d', Runs (resolvePending options' fuel') d (.ok ⟨⟩) d' ∧ Moved key content first c' d' := by
  induction fuel' generalizing c d fuel with
  | zero => exact ⟨c, d, runs_pure.mpr ⟨rfl, rfl⟩, h⟩
  | succ fuel' ih =>
    cases hpending : c.pending with
    | nil =>
      have hsame := h.pending
      rw [hpending, List.forall₂_nil_left_iff] at hsame
      refine ⟨c, d, runs_get_bind.mpr ?_, h⟩
      rw [hsame]
      exact runs_pure.mpr ⟨rfl, rfl⟩
    | cons p rest =>
      cases fuel with
      | zero =>
        obtain ⟨-, rfl⟩ := runs_pure.mp hrun
        rw [hdone] at hpending
        cases hpending
      | succ fuel =>
        obtain ⟨site, value, node, hbuilt, -, href⟩ :=
          hsound.awaits p (by rw [hpending]; exact List.mem_cons_self)
        have hplaced := (resolvePending_nodes hrun hbuilt.lt).trans hbuilt.placed
        replace hrun := runs_get_bind.mp hrun
        rw [hpending] at hrun
        obtain ⟨_, c₁, hfirst, hrun⟩ := runs_bind_ok.mp hrun
        obtain ⟨p', rest', d₁, hpending', hfirst', h'⟩ := resolveFirst_together hstrict hdepth
          hregistry hspelled hkey (hkeeps _ _ _ hplaced href) h hpending hfirst
        obtain ⟨c', d', hrun', hend⟩ := ih (resolveFirst_sound hsound hpending hfirst).1 h' hrun
        refine ⟨c', d', runs_get_bind.mpr ?_, hend⟩
        rw [hpending']
        exact runs_bind_ok.mpr ⟨⟨⟩, d₁, hfirst', hrun'⟩

end CompileM

end JsonSchema

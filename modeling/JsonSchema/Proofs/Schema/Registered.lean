import JsonSchema.Proofs.Schema.Inert
import JsonSchema.Proofs.Schema.Local
import JsonSchema.Proofs.Schema.Moved

/-!
# Documents under the keys that they are registered with

A reference to a registered document cuts its URI and puts it together again, which the key went
through only where it was given with a fragment. Where this leaves the key as it is, the document
and all places in it that compile on their own are found under it.
-/

namespace JsonSchema

open CompileM

variable {options : CompileOptions} {document : Json} {c d e : Compilation}
  {tokens : List String} {fragment : String}

namespace Compilation

/-! ## A place that is looked up first -/

def RefsWithin (d c : Compilation) : Prop :=
  ∀ (id : NodeId) (node : SchemaNode) (ref : String), d.nodes[id]? = some (some node) →
    node.ref = some ref → ∃ (id' : NodeId) (node' : SchemaNode),
      c.nodes[id']? = some (some node') ∧ node'.ref = some ref

theorem Follows.refsWithin {current : List PendingRef} (h : d.Follows c)
    (hc : Sound options document [] c) (horderly : options.Orderly document)
    (hd : Sound options document current d) : RefsWithin d c := by
  intro id node ref hnode href
  obtain ⟨hid, -⟩ := Array.getElem?_eq_some_iff.mp hnode
  obtain ⟨site, value, found, hbuilt, -⟩ := hd.built id hid
  have hsame := hbuilt.placed
  rw [hnode, Option.some.injEq, Option.some.injEq] at hsame
  subst hsame
  obtain ⟨id', site', value', node', hbuilt', -, -, hvalue⟩ := h.built hc horderly hd hbuilt
  exact ⟨id', node', hbuilt'.placed, (hbuilt'.ref_reordered hbuilt hvalue).trans href⟩

theorem Entered.traced_of_located (hc : Finished options document c)
    (horderly : options.Orderly document) (hplace : ∃ id, c.Located "" (Pointer.ofTokens tokens) id)
    (hsplit : Pointer.split ("#" ++ fragment) = .ok tokens) (hd : d.Loaded options document)
    (halone : Members.names d.documents = [""]) {site : Site} (h : d.Entered fragment site) :
    Traced options document site := by
  obtain ⟨source, entry, value, hsource, hentry, hresolve, hunder⟩ := h
  have hkey : site.key = "" := by
    have hmem : site.key ∈ Members.names d.documents :=
      List.mem_map.mpr ⟨_, Members.mem_of_get? hsource, rfl⟩
    exact List.mem_singleton.mp (halone ▸ hmem)
  have hcontent := (hd.source hsource).content
  rcases hentry with rfl | hentry
  · exact ⟨source.content, [], value, hcontent, List.mem_cons_self, hresolve, hunder⟩
  rw [hsplit, Except.ok.injEq] at hentry
  subst hentry
  -- The place lies under one where a walk has started on the way to the end.
  obtain ⟨id, hlocated⟩ := hplace
  obtain ⟨site', value', node, hbuilt, htraced, -⟩ :=
    hc.sound.built id (hc.sound.aligned.size ▸ hlocated.lt)
  obtain ⟨hkey', hpointer⟩ := (hbuilt.located_iff hc.sound.loaded (by simp)).mp hlocated
  obtain ⟨content, entry, start, hcontent', hentry, hstart, -, more, inner, hmore, hjoin⟩ := htraced
  rw [hkey, ← hkey'.symm, hcontent'] at hcontent
  cases hcontent
  rw [← hpointer, Pointer.join_ofTokens] at hjoin
  obtain rfl := Pointer.ofTokens_injective hjoin
  have horder := horderly.documents _ _ hcontent'
  have hleads := (horderly.pointers _ _ hcontent' entry hentry start hstart).append hmore
  rw [Pointer.resolve_of_leads horder.wellFormed horder.indices hleads, Except.ok.injEq] at hresolve
  subst hresolve
  obtain ⟨-, below, found, hbelow, hpointer'⟩ := hunder
  refine ⟨_, entry, start, hkey.trans hkey' ▸ hcontent', hentry, hstart, rfl, more ++ below, found,
    hmore.append hbelow, ?_⟩
  rw [hpointer', Pointer.join_ofTokens, Pointer.join_ofTokens, List.append_assoc]

end Compilation

namespace CompileM

open Compilation

/-- A compilation of a document by itself in which one place is looked up before all references. -/
structure LooksUp (options : CompileOptions) (document : Json) (ref fragment : String)
    (start late c : Compilation) : Prop where
  target : ∃ id, Runs (pointerTarget options ref "" fragment) start (.ok id) late
  resolves : ∃ fuel e, Runs (resolvePending options fuel) late (.ok ⟨⟩) e ∧ e.pending = [] ∧
    RefsWithin e c
  sound : Sound options document [] late

theorem Progress.source {added : List String} {left : List PendingRef}
    (h : Progress options document added left c) (hadded : "" ∈ added) :
    ∃ source, Members.get? c.documents "" = some source ∧ source.content = document := by
  cases hsource : Members.get? c.documents "" with
  | none =>
    rw [Members.get?_eq_none_iff, h.documents] at hsource
    exact absurd hadded hsource
  | some source => exact ⟨source, rfl, h.sound.loaded.root_content hsource⟩

theorem looksUp_walked {value : Json} {fuel : Nat} (ref : String)
    (hfirst : Runs (compileFirst options document) {} (.ok ⟨⟩) c)
    (hresolve : Runs (resolvePending options fuel) c (.ok ⟨⟩) e) (hdone : e.pending = [])
    (hwell : document.isWellFormed = true) (hsplit : Pointer.split ("#" ++ fragment) = .ok tokens)
    (hwalked : document.Walked (DraftDeclaration.ofJson? (document.member? "$schema")) tokens value) :
    LooksUp options document ref fragment c c e := by
  have hprogress := (Reaches.first hfirst).progress
  obtain ⟨source, hsource, hcontent⟩ := hprogress.source List.mem_cons_self
  have hdeclaration := (hprogress.sound.loaded.source hsource).declaration
  subst hcontent
  rw [← hdeclaration] at hwalked
  obtain ⟨id, hnode⟩ :=
    hprogress.sound.nodeOf_walked hsource hwell ⟨0, hprogress.located⟩ hwalked
  refine ⟨?_, ⟨fuel, e, hresolve, hdone, fun id node ref hnode href => ⟨id, node, hnode, href⟩⟩,
    hprogress.sound⟩
  cases hknown : c.nodeAt? (locationOf "" (Pointer.ofTokens tokens)) with
  | none => exact absurd (mem_locations_iff.mpr ⟨id, hnode.located⟩) (notMem_of_nodeAt? hknown)
  | some found =>
    refine ⟨found, runs_bind_ok.mpr ⟨tokens, c, runs_lift_ok.mpr ⟨hsplit, rfl⟩,
      runs_get_bind.mpr ?_⟩⟩
    rw [hknown]
    exact runs_pure.mpr ⟨rfl, rfl⟩

theorem looksUp_orderly (ref : String)
    (hfirst : Runs (compileFirst options document) {} (.ok ⟨⟩) c)
    (hresolve : Runs (resolvePending options (refLimit options document)) c (.ok ⟨⟩) e)
    (hfinished : Finished options document e) (horderly : options.Orderly document)
    (hplace : ∃ id, e.Located "" (Pointer.ofTokens tokens) id)
    (hsplit : Pointer.split ("#" ++ fragment) = .ok tokens) :
    ∃ late, LooksUp options document ref fragment c late e := by
  have hprogress := (Reaches.first hfirst).progress
  obtain ⟨source, hsource, hcontent⟩ := hprogress.source List.mem_cons_self
  obtain ⟨-, -, hextends, -⟩ :=
    resolvePending_sound hprogress.sound (Nat.le_add_left _ _) hresolve
  have hwell : source.content.isWellFormed = true :=
    ((hprogress.sound.loaded.source hsource).orderly horderly).wellFormed
  have htwin : source.Twin source := ⟨.refl hwell, rfl, .refl _⟩
  have hfollows : c.Follows e := by
    refine ⟨hprogress.sound.aligned, hextends.locations.subset, fun key twin htwin => ?_⟩
    have horder := (hprogress.sound.loaded.source htwin).orderly horderly
    exact ⟨twin, hextends.documents _ _ htwin, .refl horder.wellFormed, rfl, .refl _⟩
  obtain ⟨id, late, hlate, ⟨hfollows', hsource'⟩, -⟩ := pointerTarget_completes hfinished horderly
    (hextends.documents _ _ hsource) htwin ref hsplit hplace c ⟨hfollows, hsource⟩
  obtain ⟨hwalk, -⟩ := pointerTarget_ok hprogress.sound.aligned hsource hlate
  have hsound : Sound options document [] late := hprogress.sound.walk hwalk fun site hsite =>
    Entered.traced_of_located hfinished horderly hplace hsplit hprogress.sound.loaded
      hprogress.documents hsite
  have hsettled : late.Settled options :=
    hprogress.settled.later hwalk.documents hwalk.locations
  obtain ⟨d, hrun, hd⟩ := resolvePending_completes hfinished horderly (refLimit options document)
    ⟨hsound, hsettled, hfollows', source, hsource'⟩
  obtain ⟨hsound', hdone, -, -⟩ := resolvePending_sound hsound (Nat.le_add_left _ _) hrun
  exact ⟨late, ⟨id, hlate⟩, ⟨_, d, hrun, hdone, hd.refsWithin hfinished.sound horderly hsound'⟩,
    hsound⟩

end CompileM

/-! ## A schema that is nothing but a reference -/

def referenceTo (ref : String) : Json := .obj [("$ref", .str ref)]

namespace CompileM

open Compilation

variable {ref : String}

theorem get?_reference {keyword : String} (h : keyword ≠ "$ref") :
    Members.get? [("$ref", Json.str ref)] keyword = none := by
  simp [h, Members.get?]

theorem legible_reference (site : Site) (ref : String) : Legible site [("$ref", .str ref)] where
  ref := ⟨_, rfl⟩
  anchors := ⟨_, rfl⟩
  value := ⟨_, rfl⟩
  number := ⟨_, rfl⟩
  string := ⟨_, rfl⟩
  counts := by simp [Members.count?, get?_reference]
  uniqueItems := ⟨_, rfl⟩
  lists := by simp [Members.HasList, get?_reference]
  latestItems := by simp [Members.HasList, get?_reference]
  olderItems := by simp [get?_reference]
  tables := by simp [Members.HasTable, get?_reference]
  patterns := by simp [Members.membersAt, get?_reference]
  required := ⟨_, rfl⟩
  dependentRequired := ⟨_, rfl⟩
  dependencies := by simp [Members.membersAt, get?_reference]

theorem not_subschema_reference {declaration : DraftDeclaration} {keyword : String}
    {tokens : List String} {value : Json} :
    ¬ Subschema declaration [("$ref", .str ref)] keyword tokens value := by
  intro h
  have hnone : ∀ keywords : List String, "$ref" ∉ keywords → keyword ∈ keywords →
      Members.get? [("$ref", Json.str ref)] keyword = none := by
    intro keywords hkeywords hmem
    exact get?_reference fun heq => hkeywords (heq ▸ hmem)
  cases h with
  | single hmem hget | item hmem hget | member hmem hget =>
    rw [hnone _ (by decide) hmem] at hget
    cases hget
  | dependency hget | items hget | prefixItem _ _ hget | olderItem hget | additionalItems _ hget =>
    rw [get?_reference (by decide)] at hget
    cases hget

def asking (ref : String) : SourceDocument := ⟨"", referenceTo ref, "", .missing⟩

/-- A compilation that has taken in a reference, which waits, and nothing else. -/
structure Asks (ref : String) (c : Compilation) : Prop where
  documents : c.documents = [("", asking ref)]
  aliases : c.aliases = [("", "")]
  locations : c.locations = #["#"]
  anchors : c.anchors = []
  pending : c.pending = [⟨0, ref, ""⟩]

theorem quiet_asks : Quiet (Asks ref) :=
  fun _ _ _ h => ⟨h.documents, h.aliases, h.locations, h.anchors, h.pending⟩

theorem readIdentity_reference {site : Site} (id : NodeId) (c : Compilation) :
    Runs (readIdentity site id [("$ref", .str ref)]) c (.ok (some ref))
      { c with pending := c.pending ++ [⟨id, ref, site.key⟩], anchors := [] ++ c.anchors } :=
  runs_bind_ok.mpr ⟨some ref, c, runs_lift_ok.mpr ⟨rfl, rfl⟩, runs_modify_bind.mpr
    (runs_bind_ok.mpr ⟨[], _, runs_lift_ok.mpr ⟨rfl, rfl⟩,
      runs_modify_bind.mpr (runs_pure.mpr ⟨rfl, rfl⟩)⟩)⟩

theorem exists_budget (hfirst : Runs (compileFirst options document) {} (.ok ⟨⟩) c) :
    ∃ budget, budgetOf options.maxDepth = budget + 1 := by
  refine Nat.exists_eq_succ_of_ne_zero fun hzero => ?_
  obtain ⟨_, c₁, hadd, hwalk⟩ := runs_bind_ok.mp hfirst
  obtain ⟨declared, warnings, log, -, -, rfl⟩ := addDocument_ok hadd
  obtain ⟨id, c₂, hroot, -⟩ := runs_bind_ok.mp hwalk
  have hempty : ∀ location id, (taken {} "" document declared warnings log).nodeAt? location ≠ some id := by
    simp [taken, nodeAt?]
  replace hroot := runs_get_bind.mp hroot
  split at hroot
  case h_1 found hfound => exact hempty _ _ hfound
  simp only at hroot
  split at hroot
  case isFalse => cases (runs_throw.mp hroot).1
  rw [compileEntry, hzero] at hroot
  replace hroot := runs_get_bind.mp hroot
  split at hroot
  case h_1 found hfound => exact hempty _ _ hfound
  unfold compileNew at hroot
  split at hroot <;> first | cases (runs_throw.mp hroot).1 | rename_i h; cases h

theorem compileFirst_reference (ref : String) {budget : Nat}
    (hbudget : budgetOf options.maxDepth = budget + 1) : ∃ c,
      Runs (compileFirst options (referenceTo ref)) {} (.ok ⟨⟩) c ∧ Asks ref c := by
  obtain ⟨warnings, log, hadd⟩ : ∃ warnings log, Runs (addDocument options "" (referenceTo ref)) {}
      (.ok ⟨⟩) (taken {} "" (referenceTo ref) "" warnings log) :=
    addDocument_completes {} rfl (.inl rfl)
  obtain ⟨start, hstart⟩ : ∃ start, start = taken {} "" (referenceTo ref) "" warnings log := ⟨_, rfl⟩
  have hnew : start.nodeAt? (locationOf "" "") = none := by simp [hstart, taken, nodeAt?]
  have hsite : start.declarationOf "" = .missing := by rw [hstart]; rfl
  have hbegin : Asks ref { start.reserved (locationOf "" "") with
      pending := start.pending ++ [⟨start.nodes.size, ref, ""⟩], anchors := [] ++ start.anchors } := by
    rw [hstart]
    exact ⟨rfl, rfl, rfl, rfl, rfl⟩
  have hnone : Completes.Subvisits (Asks ref)
      (fun site child => compileNode options budget ⟨site.location, child.keyword⟩ site.key
        (Pointer.join site.pointer (child.keyword :: child.tokens)) child.value)
      ⟨"", "", .missing⟩ [("$ref", .str ref)] := fun _ _ _ h => absurd h not_subschema_reference
  obtain ⟨node, c, hkeywords, hasks, -⟩ := Completes.compileKeywords (legible_reference _ ref) hnone
    quiet_asks options start.nodes.size (some ref) _ hbegin
  have hvisit : Runs (compileRoot options "") start (.ok start.nodes.size) (c.placed node) := by
    refine runs_get_bind.mpr ?_
    rw [hnew]
    have hcontent : start.contentOf "" = referenceTo ref := by rw [hstart]; rfl
    rw [hcontent]
    change Runs (compileEntry options "" "" (referenceTo ref)) start _ _
    rw [compileEntry, hbudget]
    refine visit_new hnew (hsite ▸ ?_)
    exact runs_bind_ok.mpr ⟨_, _, runs_reserve.mpr ⟨rfl, rfl⟩, runs_bind_ok.mpr ⟨node, c,
      runs_bind_ok.mpr ⟨some ref, _, readIdentity_reference _ _, hkeywords⟩,
      runs_modify_bind.mpr (runs_pure.mpr ⟨rfl, rfl⟩)⟩⟩
  refine ⟨c.placed node, runs_bind_ok.mpr ⟨⟨⟩, _, hadd, runs_bind_ok.mpr ⟨_, _, hstart ▸ hvisit,
    runs_pure.mpr ⟨rfl, rfl⟩⟩⟩, ?_⟩
  exact ⟨hasks.documents, hasks.aliases, hasks.locations, hasks.anchors, hasks.pending⟩

/-! ## The document behind the reference -/

variable {key : String}

theorem declaredBase_missing (hid : document.member? "$id" = none) (key : String) :
    declaredBase key document = .ok "" := by
  rw [declaredBase, hid]
  rfl

theorem moved_taken (hkey : key ≠ "") (hd : Asks ref d) (warnings warnings' : List String)
    (log log' : Log) : Moved key document (asking ref) (taken {} "" document "" warnings log)
      (taken { d with pending := [] } key document "" warnings' log') where
  documents := by
    have hbase : documentBase key "" = key ∧ documentBase "" "" = "" := ⟨rfl, rfl⟩
    simp [taken, hd.documents, hbase]
  aliases := rfl
  places pointer := by
    have hne : locationOf key pointer ≠ "#" := by
      intro heq
      have hlength := congrArg String.length heq
      have hpos : 0 < key.length := Nat.pos_of_ne_zero (by simpa using hkey)
      simp [locationOf] at hlength
      omega
    simp [taken, hd.locations, hne]
  anchors name h := by simp [taken] at h
  pending := .nil

/-- The reference takes in the document, and finds the place in it. -/
theorem resolveFirst_registered (hkey : key ≠ "")
    (hregistered : Members.get? options.registry key = some document)
    (hid : document.member? "$id" = none) {own : Compilation}
    (hfirst : Runs (compileFirst (options.withRegistry []) document) {} (.ok ⟨⟩) c)
    (hlooks : LooksUp (options.withRegistry []) document ref fragment c e own)
    (hlocate : Uri.locate "" ref = .ok (key, fragment))
    (hanchor : isAnchorFragment fragment = false) (hd : Asks ref d) :
    ∃ d', Runs (resolveFirst options ⟨0, ref, ""⟩ []) d (.ok ⟨⟩) d' ∧
      Moved key document (asking ref) e d' := by
  obtain ⟨_, c₁, hadd, hwalk⟩ := runs_bind_ok.mp hfirst
  obtain ⟨declared, warnings, log, hdeclared, haccepts, rfl⟩ := addDocument_ok hadd
  rw [declaredBase_missing hid, Except.ok.injEq] at hdeclared
  subst hdeclared
  obtain ⟨id, c₂, hroot, hend⟩ := runs_bind_ok.mp hwalk
  obtain ⟨-, rfl⟩ := runs_pure.mp hend
  obtain ⟨target, hlate⟩ := hlooks.target
  obtain ⟨warnings', log', hadd'⟩ : ∃ warnings' log', Runs (addDocument options key document)
      { d with pending := [] } (.ok ⟨⟩)
      (taken { d with pending := [] } key document "" warnings' log') :=
    addDocument_completes _ (declaredBase_missing hid key) haccepts
  have hstrict : (options.withRegistry []).strict = options.strict := rfl
  have hdepth : (options.withRegistry []).maxDepth = options.maxDepth := rfl
  obtain ⟨id', d₂, hroot', hmoved, -⟩ := compileRoot_together hstrict hdepth _ _ _ _
    (moved_taken hkey hd warnings warnings' log log') hroot
  obtain ⟨target', d₃, hlate', hmoved', -⟩ :=
    pointerTarget_together hstrict hdepth _ _ _ _ _ _ hmoved hlate
  have hdocument : Members.get? { d with pending := [] }.documents "" = some (asking ref) := by
    simp [hd.documents, Members.get?]
  have hother : isOwnUri "" key = false := by simp [isOwnUri, hkey]
  have halias : Members.get? d.aliases key = none := by simp [hd.aliases, Members.get?, hkey]
  have htarget : Runs (targetDocument options ref "" "" key) { d with pending := [] } (.ok key) d₂ := by
    rw [targetDocument, if_neg (by simp [hother])]
    refine runs_bind_ok.mpr ⟨key, _, runs_get_bind.mpr ?_, runs_bind_ok.mpr ⟨id', d₂, hroot',
      runs_pure.mpr ⟨rfl, rfl⟩⟩⟩
    rw [halias, hregistered]
    exact runs_bind_ok.mpr ⟨⟨⟩, _, hadd', runs_pure.mpr ⟨rfl, rfl⟩⟩
  have hresolve : Runs (resolveRef options ref "") { d with pending := [] } (.ok target') d₃ := by
    refine runs_get_bind.mpr ?_
    rw [baseOf_eq hdocument]
    refine runs_bind_ok.mpr ⟨(key, fragment), _, runs_lift_ok.mpr ⟨hlocate, rfl⟩,
      runs_bind_ok.mpr ⟨key, d₂, htarget, ?_⟩⟩
    rw [hanchor]
    exact hlate'
  refine ⟨_, runs_modify_bind.mpr (runs_bind_ok.mpr ⟨target', d₃, hresolve, runs_get_bind.mpr
    (runs_modify_bind.mpr (runs_modify.mpr ⟨rfl, rfl⟩))⟩), ?_⟩
  exact ⟨hmoved'.documents, hmoved'.aliases, hmoved'.places, hmoved'.anchors, hmoved'.pending⟩

theorem locate_encoded (hspelled : Uri.Spelled key) (h : EncodesPointer ("#" ++ fragment) tokens) :
    Uri.locate "" (key ++ "#" ++ fragment) = .ok (key, fragment) ∧
      isAnchorFragment fragment = false ∧ Pointer.split ("#" ++ fragment) = .ok tokens := by
  obtain ⟨fragment', hfragment, hdecodes⟩ := h
  obtain rfl : fragment = fragment' := by simpa [← String.toList_inj] using hfragment.spelled
  obtain ⟨-, -, -, hanchor⟩ := hfragment.locate (.inl rfl : Uri.Stable "")
  have hvisible : Uri.visible fragment = fragment.toList :=
    List.filter_eq_self.mpr fun c hc => by rw [hfragment.visible c hc]; rfl
  refine ⟨?_, hanchor, Pointer.split_of_decodes hdecodes⟩
  rw [Uri.locate_key fragment hspelled, hvisible, String.ofList_toList]

theorem compileDocument_registered {own : Compilation} (hkey : key ≠ "") (hspelled : Uri.Spelled key)
    (hregistered : Members.get? options.registry key = some document)
    (hid : document.member? "$id" = none)
    (hfirst : Runs (compileFirst (options.withRegistry []) document) {} (.ok ⟨⟩) c)
    (hlooks : LooksUp (options.withRegistry []) document ref fragment c e own)
    (hkeeps : ∀ (id : NodeId) (node : SchemaNode) (ref : String),
      own.nodes[id]? = some (some node) → node.ref = some ref → Uri.KeepsTo key ref)
    (hlocate : Uri.locate "" ref = .ok (key, fragment))
    (hanchor : isAnchorFragment fragment = false) :
    ∃ schema d, Runs (compileDocument options (referenceTo ref)) {} (.ok schema) d ∧
      ∃ declaration, d.documents = [(key, ⟨key, document, key, declaration⟩), ("", asking ref)] := by
  obtain ⟨budget, hbudget⟩ := exists_budget hfirst
  have hstrict : (options.withRegistry []).strict = options.strict := rfl
  have hdepth : (options.withRegistry []).maxDepth = options.maxDepth := rfl
  rw [hdepth] at hbudget
  obtain ⟨d₀, hbegin, hasks⟩ := compileFirst_reference ref hbudget
  obtain ⟨d₁, hresolve, hmoved⟩ := resolveFirst_registered hkey hregistered hid hfirst hlooks hlocate
    hanchor hasks
  obtain ⟨fuel, e', hrest, hdone, hwithin⟩ := hlooks.resolves
  obtain ⟨limit, hlimit⟩ : ∃ limit, refLimit options (referenceTo ref) = limit + 1 := by
    refine Nat.exists_eq_succ_of_ne_zero ?_
    simp [refLimit, referenceTo, Json.size]
  obtain ⟨c', d', hend, hmoved'⟩ := resolvePending_together hstrict hdepth rfl hspelled
    hkey limit hlooks.sound hmoved hrest hdone fun id node ref hnode href => by
      obtain ⟨id', node', hnode', href'⟩ := hwithin id node ref hnode href
      exact hkeeps id' node' ref hnode' href'
  obtain ⟨declaration, -, hdocuments⟩ := hmoved'.documents
  have hpending : Runs (resolvePending options (refLimit options (referenceTo ref))) d₀ (.ok ⟨⟩) d' := by
    rw [hlimit]
    refine runs_get_bind.mpr ?_
    rw [hasks.pending]
    exact runs_bind_ok.mpr ⟨⟨⟩, d₁, hresolve, hend⟩
  rw [compileDocument_eq]
  exact ⟨_, _, runs_bind_ok.mpr ⟨⟨⟩, d₀, hbegin, runs_bind_ok.mpr ⟨⟨⟩, d', hpending,
    runs_get_bind.mpr (runs_modify_bind.mpr (runs_pure.mpr ⟨rfl, rfl⟩))⟩⟩, declaration, hdocuments⟩

end CompileM

/-! ## Answers -/

namespace Compilation

variable {ref key : String}

theorem Finished.answer (h : Finished options (referenceTo ref) c) :
    ∃ node target uri fragment goal, c.freeze.node? 0 = some node ∧ node.refTarget = some target ∧
      Uri.locate "" ref = .ok (uri, fragment) ∧ c.baseOf "" = "" ∧ c.Means "" uri goal ∧
      c.PointsTo goal fragment target := by
  obtain ⟨source, hsource, hcontent⟩ := h.root_document
  have hwell : source.content.isWellFormed = true := hcontent ▸ rfl
  have hnode : c.NodeOf "" "" (referenceTo ref) 0 := ⟨h.root, hcontent ▸ stands_root hsource⟩
  obtain ⟨site, node, hbuilt, -, -, hkey, -⟩ := h.sound.built_of_nodeOf hsource hwell hnode
  have href : node.ref = some ref :=
    (Except.ok.inj (SchemaReading.ref (hbuilt.reading c (Extends.refl c)))).symm
  obtain ⟨target, htarget, uri, fragment, goal, hlocate, hmeans, hpoints⟩ :=
    h.lookup_of_ref hbuilt href
  obtain ⟨declared, hdeclared, hbase⟩ := (h.sound.loaded.source hsource).base
  rw [hcontent] at hdeclared
  obtain rfl : "" = declared := Except.ok.inj hdeclared
  have hempty : c.baseOf "" = "" := (baseOf_eq hsource).trans hbase
  rw [hkey] at hlocate hmeans
  rw [hempty] at hlocate
  exact ⟨_, target, uri, fragment, goal, h.node?_of_built hbuilt, htarget, hlocate, hempty, hmeans,
    hpoints⟩

theorem Finished.base_of_registered {root : Json} {source : SourceDocument}
    (h : Finished options root c) (hkey : key ≠ "")
    (hregistered : Members.get? options.registry key = some document)
    (hid : document.member? "$id" = none) (hsource : (key, source) ∈ c.documents) :
    source.base = key := by
  have hloaded := h.sound.loaded.sources _ _ hsource
  have hcontent := hloaded.content
  rw [CompileOptions.source?, if_neg hkey, hregistered, Option.some.injEq] at hcontent
  obtain ⟨declared, hdeclared, hbase⟩ := hloaded.base
  rw [← hcontent, declaredBase_missing hid, Except.ok.injEq] at hdeclared
  rw [hbase, ← hdeclared]
  rfl

theorem Finished.located_of_node? {id : NodeId} {node : SchemaNode} {pointer : String}
    (h : Finished options document c) (hnode : c.freeze.node? id = some node)
    (hlocation : node.location = locationOf key pointer) : c.Located key pointer id := by
  obtain ⟨site, value, found, hbuilt, rfl⟩ := h.built_of_node? hnode
  have hlocated := hbuilt.nodeOf.located
  rwa [Located, ← Site.location, ← hbuilt.location, show found.location = _ from hlocation]
    at hlocated

end Compilation

/-! ## Registrations -/

/-- More documents are registered after these ones, under other keys. -/
inductive Registry.Later (key : String) (registry : Registry) : Registry → Prop
  | none : Later key registry registry
  | add {larger more : Registry} {document : Json} {uri : Option String} {other : String}
      (h : Later key registry larger) (hadd : larger.add document uri = .ok (other, more))
      (hother : other ≠ key) : Later key registry more

/-- The last document that was registered under the key is this one, and its URI has led to it. -/
def Registry.Holds (registry : Registry) (document : Json) (uri key : String) : Prop :=
  ∃ earlier added, Registry.add earlier document (some uri) = .ok (key, added) ∧
    added.Later key registry

namespace Registry

variable {registry larger : Registry} {key uri : String}

theorem Later.get? (h : registry.Later key larger) :
    Members.get? larger key = Members.get? registry key := by
  induction h with
  | none => rfl
  | add _ hadd hother ih =>
    obtain ⟨found, -, hfound⟩ := Except.map_eq_ok.mp hadd
    obtain ⟨rfl, rfl⟩ := Prod.mk.inj hfound
    rw [Members.get?_put, if_neg (Ne.symm hother), ih]

theorem Holds.get? (h : registry.Holds document uri key) :
    Members.get? registry key = some document := by
  obtain ⟨earlier, added, hadd, hlater⟩ := h
  obtain ⟨found, -, hfound⟩ := Except.map_eq_ok.mp hadd
  obtain ⟨rfl, rfl⟩ := Prod.mk.inj hfound
  rw [hlater.get?, Members.get?_put, if_pos rfl]

theorem Holds.hash (h : registry.Holds document uri key) : '#' ∉ key.toList := by
  obtain ⟨earlier, added, hadd, -⟩ := h
  obtain ⟨found, hkey, hfound⟩ := Except.map_eq_ok.mp hadd
  obtain ⟨rfl, -⟩ := Prod.mk.inj hfound
  unfold Registry.key at hkey
  dsimp only at hkey
  split at hkey
  case h_1 => cases hkey
  case h_2 name hname =>
    obtain ⟨cut, hcut, rfl⟩ := Except.map_eq_ok.mp hkey
    exact Uri.hash_notMem_of_defragment (Except.mapError_eq_ok.mp hcut)

end Registry

namespace CompileM

open Compilation

/-- A compilation that succeeds walks over its document, and comes to its end between references. -/
theorem compileDocument_finished {schema : CompiledSchema}
    (h : (runCompile options document).result = .ok schema) :
    ∃ c e, Runs (compileFirst options document) {} (.ok ⟨⟩) c ∧
      Runs (resolvePending options (refLimit options document)) c (.ok ⟨⟩) e ∧
      Finished options document e ∧ schema = e.freeze := by
  obtain ⟨d, hrun⟩ := runs_of_result h
  rw [compileDocument_eq] at hrun
  obtain ⟨⟨⟩, c, hfirst, hrun⟩ := runs_bind_ok.mp hrun
  obtain ⟨⟨⟩, e, hresolve, hrun⟩ := runs_bind_ok.mp hrun
  replace hrun := runs_modify_bind.mp (runs_get_bind.mp hrun)
  obtain ⟨hschema, -⟩ := runs_pure.mp hrun
  obtain ⟨added, left, hends⟩ := resolvePending_ends (.first hfirst) (Nat.le_add_left _ _) hresolve
  cases hends with
  | drained hreaches hdone =>
    exact ⟨c, e, hfirst, hresolve, hreaches.progress.finished hdone, (Except.ok.inj hschema).symm⟩

end CompileM

/-- All of a document compiles by itself, and its references keep to it under the key. -/
structure CompileOptions.Movable (options : CompileOptions) (document : Json) (key : String)
    (own : CompiledSchema) : Prop where
  compiles : (runCompile (options.withRegistry []) document).result = .ok own
  wellFormed : document.isWellFormed = true
  refs : ∀ id node ref, own.node? id = some node → node.ref = some ref → Uri.KeepsTo key ref

/-- The walk from the root of the document meets the place, or the document is orderly, so that any
place of it may be looked up first. -/
def CompileOptions.Meets (options : CompileOptions) (document : Json) (tokens : List String) : Prop :=
  (∃ value, document.Walked (DraftDeclaration.ofJson? (document.member? "$schema")) tokens value) ∨
    (options.withRegistry []).Orderly document

/--
A document that was registered under a key is found under it, with each place that compiles where
the document is compiled by itself, if the key comes back when it is cut and put together again.
Under another key the document is never found.
-/
theorem registered_documents_found (options : CompileOptions) (document : Json) (uri key : String)
    (hholds : Registry.Holds options.registry document uri key) (hid : document.member? "$id" = none) :
    (Uri.Spelled key → key ≠ "" → ∀ own id place fragment tokens,
      options.Movable document key own → own.node? id = some place →
      place.location = locationOf "" (Pointer.ofTokens tokens) → options.Meets document tokens →
      EncodesPointer ("#" ++ fragment) tokens →
      ∃ schema root target found,
        (runCompile options (referenceTo (key ++ "#" ++ fragment))).result = .ok schema ∧
        schema.node? 0 = some root ∧ root.refTarget = some target ∧
        schema.node? target = some found ∧
        found.location = locationOf key (Pointer.ofTokens tokens)) ∧
    (¬ Uri.Spelled key → ∀ fragment schema root target found,
      (runCompile options (referenceTo (key ++ "#" ++ fragment))).result = .ok schema →
      schema.node? 0 = some root → root.refTarget = some target →
      schema.node? target = some found → found.documentKey ≠ key) := by
  refine ⟨?_, ?_⟩
  · intro hspelled hkey own id place fragment tokens hmovable hplace hlocation hmeets hencodes
    obtain ⟨hlocate, hanchor, hsplit⟩ := CompileM.locate_encoded hspelled hencodes
    obtain ⟨c, e, hfirst, hresolve, hfinished, rfl⟩ := CompileM.compileDocument_finished hmovable.compiles
    have hlocated := hfinished.located_of_node? hplace hlocation
    obtain ⟨late, hlooks⟩ : ∃ late, CompileM.LooksUp (options.withRegistry []) document
        (key ++ "#" ++ fragment) fragment c late e := by
      rcases hmeets with ⟨value, hwalked⟩ | horderly
      · exact ⟨c, CompileM.looksUp_walked _ hfirst hresolve hfinished.pending hmovable.wellFormed hsplit
          hwalked⟩
      · exact CompileM.looksUp_orderly _ hfirst hresolve hfinished horderly ⟨id, hlocated⟩ hsplit
    have hkeeps : ∀ (id : NodeId) (node : SchemaNode) (ref : String),
        e.nodes[id]? = some (some node) → node.ref = some ref → Uri.KeepsTo key ref := by
      intro id node ref hnode href
      refine hmovable.refs id { node with refTarget := e.targets.lookup node.id } ref ?_ href
      rw [hfinished.node?_freeze, hnode]
      rfl
    obtain ⟨schema, d, hrun, declaration, hdocuments⟩ := CompileM.compileDocument_registered hkey hspelled
      hholds.get? hid hfirst hlooks hkeeps hlocate hanchor
    obtain ⟨hsound, hpending, rfl, hroot, hsettled⟩ := CompileM.compileDocument_sound hrun
    have hend : Compilation.Finished options (referenceTo (key ++ "#" ++ fragment)) d :=
      ⟨hsound, hpending, hroot, hsettled⟩
    obtain ⟨root, target, uri', fragment', goal, hnode, htarget, hlocate', hbase, hmeans, hpoints⟩ :=
      hend.answer
    rw [hlocate, Except.ok.injEq, Prod.mk.injEq] at hlocate'
    obtain ⟨rfl, rfl⟩ := hlocate'
    rw [Compilation.Means, hbase, if_neg (by simp [isOwnUri, hkey])] at hmeans
    obtain rfl : goal = key := by
      obtain ⟨source, hmem, hnames⟩ := hmeans
      simp only [hdocuments, List.mem_cons, Prod.mk.injEq, List.not_mem_nil, or_false] at hmem
      rcases hmem with ⟨rfl, -⟩ | ⟨rfl, rfl⟩
      · rfl
      · exact absurd (or_self_iff.mp hnames) hkey
    rw [Compilation.PointsTo, hanchor, if_neg Bool.false_ne_true] at hpoints
    obtain ⟨tokens', hsplit', hplaced⟩ := hpoints
    rw [hsplit, Except.ok.injEq] at hsplit'
    subst hsplit'
    obtain ⟨site, value, node, hbuilt, hsite, hpointer⟩ :=
      hend.built_of_located (by rw [hdocuments]; exact List.mem_cons_self) hplaced
    refine ⟨d.freeze, root, target, _, congrArg Prod.fst hrun, hnode, htarget,
      hend.node?_of_built hbuilt, hbuilt.location.trans ?_⟩
    rw [Site.location, hsite, hpointer]
  · intro hspelled fragment schema root target found hresult hroot htarget hfound
    obtain ⟨c, hc, rfl⟩ := finished_of_result hresult
    obtain ⟨root', target', uri', fragment', goal, hroot', htarget', hlocate, hbase, hmeans,
      hpoints⟩ := hc.answer
    obtain rfl := Option.some.inj (hroot.symm.trans hroot')
    obtain rfl := Option.some.inj (htarget.symm.trans htarget')
    have hother : uri' ≠ key := Uri.ne_of_not_spelled hholds.hash hspelled hlocate
    have hgoal : goal ≠ key := by
      rintro rfl
      have hkey : goal ≠ "" := fun hempty => hspelled (hempty ▸ Uri.spelled_empty)
      unfold Compilation.Means at hmeans
      split at hmeans
      case isTrue => exact hkey hmeans
      case isFalse =>
        obtain ⟨source, hmem, hnames⟩ := hmeans
        exact hother (or_self_iff.mp ((hc.base_of_registered hkey hholds.get? hid hmem) ▸ hnames))
    obtain ⟨source, hsource, -⟩ := hc.root_document
    obtain ⟨taken, htaken⟩ := hmeans.taken hc.sound.loaded hsource
    obtain ⟨node, hnode, -, hkey, -⟩ := hc.node_of_pointsTo (Members.mem_of_get? htaken) hpoints
    obtain rfl := Option.some.inj (hfound.symm.trans hnode)
    exact hkey ▸ hgoal

def library : Json :=
  .obj [("properties", .obj [("a b", .obj [("type", .str "string")]),
    ("c", .obj [("$ref", .str "#/properties/a%20b")])])]

/-- The document under a key, and another one under a key that is the same URI. -/
def shelves : CompileOptions where
  maxDepth := 10
  strict := true
  registry := [("HTTP://x/a", .bool true), ("http://x/a", library)]

/-- The document is found, and the other one is not. -/
theorem library_found :
    (∃ schema root target found,
      (runCompile shelves (referenceTo "http://x/a#/properties/a%20b")).result = .ok schema ∧
      schema.node? 0 = some root ∧ root.refTarget = some target ∧
      schema.node? target = some found ∧ found.location = "http://x/a#/properties/a b") ∧
    ∀ schema root target found,
      (runCompile shelves (referenceTo "HTTP://x/a#")).result = .ok schema →
      schema.node? 0 = some root → root.refTarget = some target →
      schema.node? target = some found → found.documentKey ≠ "HTTP://x/a" := by
  have hlast : Registry.add [("HTTP://x/a", .bool true)] library (some "http://x/a") =
      .ok ("http://x/a", shelves.registry) := rfl
  have hfirst : Registry.add [] (.bool true) (some "HTTP://x/a") =
      .ok ("HTTP://x/a", [("HTTP://x/a", .bool true)]) := rfl
  refine ⟨?_, ?_⟩
  · have hrun : ((runCompile (shelves.withRegistry []) library).result.toOption.bind
        (·.node? 1)).map (·.location) = some "#/properties/a b" := by decide +kernel
    simp only [Option.map_eq_some_iff, Option.bind_eq_some_iff, Except.toOption_eq_some] at hrun
    obtain ⟨place, ⟨own, hown, hplace⟩, hlocation⟩ := hrun
    have hvisible : ("/properties/a%20b".toList.all (!Uri.isRemoved ·)) = true := by decide +kernel
    have hencodes : EncodesPointer ("#" ++ "/properties/a%20b") ["properties", "a b"] := by
      refine ⟨"/properties/a%20b", ⟨rfl, .inr rfl, fun c hc => ?_⟩, by decide +kernel⟩
      simpa using List.all_eq_true.mp hvisible c hc
    have hmovable : shelves.Movable library "http://x/a" own :=
      ⟨hown, rfl, fun _ _ ref _ _ => Uri.keepsTo_of_parameters rfl (by decide +kernel) ref⟩
    have hmeets : shelves.Meets library ["properties", "a b"] :=
      .inl ⟨_, .child .root (.member (by simp) rfl (List.mem_cons_self))⟩
    have hnames : "#/properties/a b" = locationOf "" (Pointer.ofTokens ["properties", "a b"]) ∧
        "http://x/a#/properties/a b" =
          locationOf "http://x/a" (Pointer.ofTokens ["properties", "a b"]) := by decide +kernel
    rw [hnames.2]
    exact (registered_documents_found shelves library "http://x/a" "http://x/a"
      ⟨_, _, hlast, .none⟩ rfl).1 (by decide +kernel) (by decide) own 1 place "/properties/a%20b" _
      hmovable hplace (hlocation.trans hnames.1) hmeets hencodes
  · exact (registered_documents_found shelves (.bool true) "HTTP://x/a" "HTTP://x/a"
      ⟨_, _, hfirst, .add .none hlast (by decide)⟩ rfl).2 (by decide +kernel) ""

end JsonSchema

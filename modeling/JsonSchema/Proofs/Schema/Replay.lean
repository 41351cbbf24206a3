import JsonSchema.Proofs.Schema.Follow

/-!
# Compiling a document once more, in another order

The finished compilation of a document guides the one of the same document with its members in
another order. Each walk starts where one started there, each document that is taken in was taken in
there, and each reference has its answer there, so everything completes.
-/

namespace JsonSchema

namespace CompileM

open Compilation

variable {options : CompileOptions} {root : Json} {key : String} {value inner : Json}
  {document twin : SourceDocument}

/-! ## Entries of a walk -/

section

variable {c d : Compilation} {tokens : List String} {ref fragment name : String}
  (hc : Finished options root c) (horderly : options.Orderly root)
  (hdocument : Members.get? c.documents key = some document) (htwin : document.Twin twin)

include hc horderly hdocument htwin

theorem compileEntry_completes (hleads : document.content.Leads tokens inner)
    (hnode : ∃ id, c.Located key (Pointer.ofTokens tokens) id) (hvalue : inner.Reordered value) :
    Completes (FollowsIn c key twin) (compileEntry options key (Pointer.ofTokens tokens) value)
      fun _ => True := by
  have hsource := hc.sound.loaded.source hdocument
  obtain ⟨id, hlocated⟩ := hnode
  have hnode : c.NodeOf key (Pointer.ofTokens tokens) inner id :=
    ⟨hlocated, document, tokens, hdocument, rfl, hleads.at⟩
  refine compileNode_completes hc.sound hdocument htwin _ _ ⟨id, hnode⟩ hvalue fun more below h => ?_
  obtain ⟨below', h', -⟩ := hvalue.symm.leads h
  have hnesting := (hsource.orderly horderly).nesting _ _ (hleads.append h')
  rw [List.length_append] at hnesting
  rw [budgetOf]
  omega

theorem compileRoot_completes : Completes (FollowsIn c key twin) (compileRoot options key)
    fun _ => True := by
  intro e he
  cases hknown : e.nodeAt? (locationOf key "") with
  | some id =>
    refine ⟨id, e, runs_get_bind.mpr ?_, he, trivial⟩
    rw [hknown]
    exact runs_pure.mpr ⟨rfl, rfl⟩
  | none =>
    obtain ⟨id, hlocated⟩ := hc.settled.rooted key document hdocument
    obtain ⟨site, node, hbuilt, -⟩ := hc.sound.built_of_nodeOf hdocument htwin.content.left
      ⟨hlocated, stands_root hdocument⟩
    obtain ⟨id', e', hrun, he', -⟩ := compileEntry_completes hc horderly hdocument htwin .root
      ⟨id, hlocated⟩ htwin.content e he
    refine ⟨id', e', runs_get_bind.mpr ?_, he', trivial⟩
    rw [hknown]
    simp only [contentOf_eq he.2]
    rw [if_pos (htwin.content.isSchema_eq ▸ hbuilt.isSchema)]
    exact hrun

theorem compileTarget_completes (ref : String) (hleads : document.content.Leads tokens inner)
    (hnode : ∃ id, c.Located key (Pointer.ofTokens tokens) id) (hvalue : inner.Reordered value)
    (hschema : value.isSchema = true) : Completes (FollowsIn c key twin)
      (compileTarget options ref key (Pointer.ofTokens tokens) value) fun _ => True := by
  have hentry := compileEntry_completes hc horderly hdocument htwin hleads hnode hvalue
  unfold compileTarget
  rw [if_pos hschema]
  exact (Completes.record quiet_followsIn _ _).bind fun _ _ => hentry

theorem pointerTarget_completes (ref : String)
    (hsplit : Pointer.split ("#" ++ fragment) = .ok tokens)
    (hnode : ∃ id, c.Located key (Pointer.ofTokens tokens) id) :
    Completes (FollowsIn c key twin) (pointerTarget options ref key fragment) fun _ => True := by
  have hlift : Completes (FollowsIn c key twin)
      (lift (pointerFault ref) (Pointer.split ("#" ++ fragment))) fun found => found = tokens :=
    Completes.lift hsplit
  refine hlift.bind fun found htokens e he => ?_
  subst htokens
  cases hknown : e.nodeAt? (locationOf key (Pointer.ofTokens found)) with
  | some id =>
    refine ⟨id, e, runs_get_bind.mpr ?_, he, trivial⟩
    rw [hknown]
    exact runs_pure.mpr ⟨rfl, rfl⟩
  | none =>
    obtain ⟨id, hlocated⟩ := hnode
    have hcontent := (hc.sound.loaded.source hdocument).orderly horderly
    obtain ⟨site, inner, node, hbuilt, rfl, hpointer⟩ :=
      hc.built_of_located (Members.mem_of_get? hdocument) hlocated
    obtain ⟨other, tokens', hother, htokens, hleads⟩ := hc.sound.leads horderly hbuilt
    obtain rfl := Option.some.inj (hdocument.symm.trans hother)
    obtain rfl := Pointer.ofTokens_injective (hpointer.symm.trans htokens)
    -- The pointer leads to the same value, but for the order of members, in the reordered document.
    obtain ⟨value, hresolve, hvalue⟩ := htwin.content.resolve
      (Pointer.resolve_of_leads hcontent.wellFormed hcontent.indices hleads)
    obtain ⟨id', e', hrun, he', -⟩ := compileTarget_completes hc horderly hdocument htwin ref hleads
      ⟨id, hlocated⟩ hvalue (hvalue.isSchema_eq ▸ hbuilt.isSchema) e he
    refine ⟨id', e', runs_get_bind.mpr ?_, he', trivial⟩
    rw [hknown, contentOf_eq he.2]
    exact runs_bind_ok.mpr ⟨value, e, runs_lift_ok.mpr ⟨hresolve, rfl⟩, hrun⟩

end

theorem anchorTarget_completes {c : Compilation} {name : String} {id : NodeId} (ref : String)
    (h : ((key, name), id) ∈ c.anchors) : ∃ id', Runs (anchorTarget ref key name) c (.ok id') c := by
  cases hfound : c.anchors.lookup (key, name) with
  | none => exact absurd (List.mem_map.mpr ⟨_, h, rfl⟩) (lookup_eq_none_iff.mp hfound)
  | some id' =>
    refine ⟨id', runs_get_bind.mpr ?_⟩
    rw [hfound]
    exact runs_pure.mpr ⟨rfl, rfl⟩

/-! ## Documents -/

theorem checkDraft_completes {content : Json} (c : Compilation) (key : String)
    (haccepts : Accepts options content) : ∃ warnings log, Runs (checkDraft options key content) c
      (.ok (DraftDeclaration.ofJson? (content.member? "$schema"))) { c with warnings, log } := by
  unfold checkDraft
  dsimp only
  split
  case isTrue => exact ⟨_, _, runs_modify_bind.mpr (runs_pure.mpr ⟨rfl, rfl⟩)⟩
  case isFalse hsupported =>
    obtain ⟨htext, hstrict⟩ := haccepts.resolve_left hsupported
    rw [if_neg (by simp [htext]), if_neg (by simp [hstrict])]
    exact ⟨_, _, runs_bind_ok.mpr ⟨⟨⟩, _, runs_modify_bind.mpr (runs_modify.mpr ⟨rfl, rfl⟩),
      runs_pure.mpr ⟨rfl, rfl⟩⟩⟩

theorem addDocument_completes {content : Json} {declared : String} (c : Compilation)
    (hdeclared : declaredBase key content = .ok declared) (haccepts : Accepts options content) :
    ∃ warnings log, Runs (addDocument options key content) c (.ok ⟨⟩)
      (c.taken key content declared warnings log) := by
  obtain ⟨warnings, log, hdraft⟩ := checkDraft_completes
    { c with aliases := ownAliases key declared ++ c.aliases } key haccepts
  refine ⟨warnings, log, runs_bind_ok.mpr ⟨declared, c, runs_lift_ok.mpr ⟨hdeclared, rfl⟩, ?_⟩⟩
  exact runs_modify_bind.mpr (runs_bind_ok.mpr ⟨_, _, hdraft, runs_modify.mpr ⟨rfl, rfl⟩⟩)

/-- Between the references of a compilation that follows the finished one `c`. -/
structure Replays (options : CompileOptions) (root : Json) (c : Compilation)
    (current : List PendingRef) (d : Compilation) : Prop where
  sound : Sound options root current d
  settled : d.Settled options
  follows : d.Follows c
  root : ∃ twin, Members.get? d.documents "" = some twin

section

variable {root' : Json} {c d : Compilation} {uri target ref : String} {current : List PendingRef}
  (hc : Finished options root c) (horderly : options.Orderly root)
  (hd : Replays options root' c current d)

include hc horderly hd

theorem takeDocument_completes (ref key : String) (hnames : c.Names uri target) :
    ∃ d', Runs (takeDocument options ref key uri) d (.ok target) d' ∧ d'.Follows c ∧
      ∃ twin, Members.get? d'.documents target = some twin := by
  cases hknown : Members.get? d.aliases uri with
  | some found =>
    obtain ⟨twin, hmem, hby⟩ := (hd.sound.loaded.aliases _ _).mp (Members.mem_of_get? hknown)
    have htwin := hd.sound.loaded.get?_iff.mpr hmem
    obtain ⟨document, hdocument, hsame⟩ := hd.follows.documents _ twin htwin
    have hfound : c.Names uri found :=
      ⟨document, Members.mem_of_get? hdocument, hsame.base ▸ hby⟩
    obtain rfl := hc.settled.oneKey horderly.keyed uri found target hfound hnames
    refine ⟨d, runs_get_bind.mpr ?_, hd.follows, twin, htwin⟩
    rw [hknown]
    exact runs_pure.mpr ⟨rfl, rfl⟩
  | none =>
    obtain ⟨document, hmem, hby⟩ := hnames
    have hdocument := hc.sound.loaded.get?_iff.mpr hmem
    have hsource := hc.sound.loaded.sources _ _ hmem
    obtain ⟨declared, hdeclared, hbase⟩ := hsource.base
    -- The document itself has been there from the start, under all its names.
    have htarget : target ≠ "" := by
      rintro rfl
      obtain ⟨twin, htwin⟩ := hd.root
      obtain ⟨found, hfound, hsame⟩ := hd.follows.documents _ twin htwin
      obtain rfl := Option.some.inj (hdocument.symm.trans hfound)
      have halias := (hd.sound.loaded.aliases uri "").mpr
        ⟨twin, Members.mem_of_get? htwin, hsame.base ▸ hby⟩
      exact Members.get?_eq_none_iff.mp hknown (List.mem_map.mpr ⟨_, halias, rfl⟩)
    have hcontent := hsource.content
    rw [CompileOptions.source?, if_neg htarget] at hcontent
    have hkeyed := horderly.keyed _ _ _ hcontent hdeclared
    obtain rfl : uri = target := by
      rwa [hbase, hkeyed, or_self] at hby
    obtain ⟨warnings, log, hadd⟩ := addDocument_completes d hdeclared hsource.accepts
    refine ⟨d.taken uri document.content declared warnings log, runs_get_bind.mpr ?_, ?_, _,
      (get?_taken uri).trans (if_pos rfl)⟩
    · rw [hknown, hcontent]
      exact runs_bind_ok.mpr ⟨⟨⟩, _, hadd, runs_pure.mpr ⟨rfl, rfl⟩⟩
    · refine hd.follows.taken hdocument ?_ hbase hsource.declaration
      exact (hsource.orderly horderly).wellFormed

theorem targetDocument_completes (ref : String) (hmeans : c.Means key uri target)
    (hdocument : ∃ twin, Members.get? d.documents key = some twin) :
    ∃ d', Runs (targetDocument options ref key (c.baseOf key) uri) d (.ok target) d' ∧
      d'.Follows c ∧ ∃ twin, Members.get? d'.documents target = some twin := by
  unfold Means at hmeans
  unfold targetDocument
  split at hmeans
  case isTrue hown =>
    rw [if_pos hown, hmeans]
    exact ⟨d, runs_pure.mpr ⟨rfl, rfl⟩, hd.follows, hdocument⟩
  case isFalse hown =>
    rw [if_neg hown]
    obtain ⟨e, htake, hfollows, twin, htwin⟩ := takeDocument_completes hc horderly hd ref key hmeans
    obtain ⟨document, hdocument, hsame⟩ := hfollows.documents _ twin htwin
    obtain ⟨id, e', hroot, ⟨hfollows', htwin'⟩, -⟩ :=
      compileRoot_completes hc horderly hdocument hsame e ⟨hfollows, htwin⟩
    exact ⟨e', runs_bind_ok.mpr ⟨target, e, htake, runs_bind_ok.mpr ⟨id, e', hroot,
      runs_pure.mpr ⟨rfl, rfl⟩⟩⟩, hfollows', twin, htwin'⟩

/-! ## References -/

theorem resolveRef_completes {twin : SourceDocument} {answer : NodeId}
    (htwin : Members.get? d.documents key = some twin) (href : ref ∈ twin.content.strings)
    (hanswers : c.Answers key ref answer) :
    ∃ id d', Runs (resolveRef options ref key) d (.ok id) d' ∧ d'.Follows c := by
  obtain ⟨uri, fragment, target, hlocate, hmeans, hpoints⟩ := hanswers
  obtain ⟨document, hdocument, hsame⟩ := hd.follows.documents _ twin htwin
  have hbase : d.baseOf key = c.baseOf key := by
    rw [baseOf_eq htwin, baseOf_eq hdocument, hsame.base]
  obtain ⟨e, htarget, hfollows, found, hfound⟩ :=
    targetDocument_completes hc horderly hd ref hmeans ⟨twin, htwin⟩
  obtain ⟨source, hsource, hsame'⟩ := hfollows.documents _ found hfound
  suffices h : ∃ id d', Runs (if isAnchorFragment fragment = true
      then anchorTarget ref target fragment
      else pointerTarget options ref target fragment) e (.ok id) d' ∧ d'.Follows c by
    obtain ⟨id, d', hrun, hd'⟩ := h
    refine ⟨id, d', runs_get_bind.mpr (runs_bind_ok.mpr ⟨(uri, fragment), d, runs_lift_ok.mpr
      ⟨hbase ▸ hlocate, rfl⟩, runs_bind_ok.mpr ⟨target, e, hbase ▸ htarget, hrun⟩⟩), hd'⟩
  unfold PointsTo at hpoints
  split at hpoints
  case isTrue hanchor =>
    rw [if_pos hanchor]
    -- The walk from the root of the document has come by the anchor, here as in `c`.
    obtain ⟨d₁, htakes, hwalk, -, hsettled⟩ := targetDocument_ok fragment hd.sound.aligned
      hd.sound.loaded (Uri.hash_notMem_of_locate hlocate) htarget
    have hsound := hd.sound.entered htakes hwalk htwin href (baseOf_eq htwin ▸ hbase ▸ hlocate)
    obtain ⟨source', tokens, value, hsource', -, hwalked, hname⟩ :=
      hc.sound.walked_of_anchor horderly hpoints
    obtain rfl := Option.some.inj (hsource.symm.trans hsource')
    obtain ⟨value', hwalked', hvalue⟩ := hwalked.reordered hsame'.content hsame'.declaration
    obtain ⟨id, hanchor⟩ := hsound.anchor_of_walked hfound hsame'.content.right
      ((hsettled hd.settled).rooted target found hfound) hwalked' (anchorNames_eq hvalue ▸ hname)
    obtain ⟨id', hrun⟩ := anchorTarget_completes ref hanchor
    exact ⟨id', e, hrun, hfollows⟩
  case isFalse hanchor =>
    rw [if_neg hanchor]
    obtain ⟨tokens, hsplit, hlocated⟩ := hpoints
    obtain ⟨id, d', hrun, ⟨hfollows', -⟩, -⟩ :=
      pointerTarget_completes hc horderly hsource hsame' ref hsplit ⟨answer, hlocated⟩ e
        ⟨hfollows, hfound⟩
    exact ⟨id, d', hrun, hfollows'⟩

end

/-! ## Whole runs -/

section

variable {root' : Json} {c d : Compilation} (hc : Finished options root c)
  (horderly : options.Orderly root)

include hc horderly

theorem resolveFirst_completes {first : PendingRef} {rest : List PendingRef}
    (hd : Replays options root' c [] d) (hpending : d.pending = first :: rest) :
    ∃ d', Runs (resolveFirst options first rest) d (.ok ⟨⟩) d' ∧ Replays options root' c [] d' := by
  have hbegin := hd.sound.begin hpending
  have hreplays : Replays options root' c [first] { d with pending := rest } :=
    ⟨hbegin, hd.settled.later rfl List.prefix_rfl, hd.follows.same rfl rfl rfl, hd.root⟩
  -- The node that waits has one in `c`, and the reference has its answer there.
  obtain ⟨site, value, node, hbuilt, hkey, href⟩ := hbegin.awaits first List.mem_cons_self
  obtain ⟨id, site', value', node', hbuilt', hkey', -, hvalue⟩ :=
    hreplays.follows.built hc.sound horderly hbegin hbuilt
  obtain ⟨answer, -, hanswers⟩ :=
    hc.lookup_of_ref hbuilt' ((hbuilt'.ref_reordered hbuilt hvalue).trans href)
  obtain ⟨twin, htwin, hmem⟩ := hbuilt.ref_mem href
  rw [hkey', hkey] at hanswers
  rw [hkey] at htwin
  obtain ⟨target, e, hrun, hfollows⟩ :=
    resolveRef_completes hc horderly hreplays htwin hmem hanswers
  have hfirst : ∃ log, Runs (resolveFirst options first rest) d (.ok ⟨⟩)
      { e with log, targets := (first.node, target) :: e.targets } :=
    ⟨_, runs_modify_bind.mpr (runs_bind_ok.mpr ⟨target, e, hrun,
      runs_get_bind.mpr (runs_modify_bind.mpr (runs_modify.mpr ⟨rfl, rfl⟩))⟩)⟩
  obtain ⟨log, hfirst⟩ := hfirst
  obtain ⟨hsound, -, hextends, hsettled⟩ := resolveFirst_sound hd.sound hpending hfirst
  obtain ⟨start, hstart⟩ := hd.root
  exact ⟨_, hfirst, hsound, hsettled hd.settled, hfollows.same rfl rfl rfl, start,
    hextends.documents _ _ hstart⟩

theorem resolvePending_completes (fuel : Nat) (hd : Replays options root' c [] d) :
    ∃ d', Runs (resolvePending options fuel) d (.ok ⟨⟩) d' ∧ d'.Follows c := by
  induction fuel generalizing d with
  | zero => exact ⟨d, runs_pure.mpr ⟨rfl, rfl⟩, hd.follows⟩
  | succ fuel ih =>
    cases hpending : d.pending with
    | nil =>
      refine ⟨d, runs_get_bind.mpr ?_, hd.follows⟩
      rw [hpending]
      exact runs_pure.mpr ⟨rfl, rfl⟩
    | cons first rest =>
      obtain ⟨e, hfirst, hreplays⟩ := resolveFirst_completes hc horderly hd hpending
      obtain ⟨d', hrest, hd'⟩ := ih hreplays
      refine ⟨d', runs_get_bind.mpr ?_, hd'⟩
      rw [hpending]
      exact runs_bind_ok.mpr ⟨⟨⟩, e, hfirst, hrest⟩

/-- The document with its members in another order compiles, and meets nothing else. -/
theorem compileDocument_completes (hroot : root.Reordered root') :
    ∃ schema d, Runs (compileDocument options root') {} (.ok schema) d ∧ d.Follows c := by
  obtain ⟨document, hdocument, rfl⟩ := hc.root_document
  have hsource := hc.sound.loaded.source hdocument
  obtain ⟨declared, hdeclared, hbase⟩ := hsource.base
  have haccepts : Accepts options root' := by
    have hagrees := DraftDeclaration.agrees_of_reordered hroot
    rw [Accepts, ← hagrees.isSupported, ← hagrees.hasText]
    exact hsource.accepts
  rw [declaredBase_eq hroot] at hdeclared
  obtain ⟨warnings, log, hadd⟩ := addDocument_completes {} hdeclared haccepts
  obtain ⟨twin, htwin, hstart⟩ : ∃ twin, document.Twin twin ∧
      (taken {} "" root' declared warnings log).documents = [("", twin)] :=
    ⟨_, ⟨hroot, hbase, hsource.declaration ▸ DraftDeclaration.agrees_of_reordered hroot⟩, rfl⟩
  have hfollows : (taken {} "" root' declared warnings log).Follows c := by
    refine ⟨⟨rfl, List.nodup_nil⟩, List.nil_subset _, fun key found hget => ?_⟩
    rw [hstart] at hget
    obtain ⟨rfl, rfl⟩ := Prod.mk.inj (List.mem_singleton.mp (Members.mem_of_get? hget))
    exact ⟨document, hdocument, htwin⟩
  obtain ⟨id, e, hrun, ⟨hfollows, hdocument'⟩, -⟩ :=
    compileRoot_completes hc horderly hdocument htwin _ ⟨hfollows, hstart ▸ rfl⟩
  obtain ⟨hsound, hlocated, hsettled⟩ := compileRoot_sound hdeclared haccepts hrun
  obtain ⟨d, hpending, hd⟩ := resolvePending_completes hc horderly (refLimit options root')
    ⟨hsound, hsettled, hfollows, _, hdocument'⟩
  exact ⟨_, _, runs_bind_ok.mpr ⟨⟨⟩, _, hadd, runs_bind_ok.mpr ⟨id, e, hrun,
    runs_bind_ok.mpr ⟨⟨⟩, d, hpending, runs_get_bind.mpr (runs_modify_bind.mpr
      (runs_pure.mpr ⟨rfl, rfl⟩))⟩⟩⟩, hd.same rfl rfl rfl⟩

end

end CompileM

end JsonSchema

import JsonSchema.Proofs.Schema.Agreement

/-!
# Why a compilation stops

Each fault of a compilation has its cause in a document that is compiled or registered: in what the
document declares, in a value that is walked over, or in a reference.
-/

namespace JsonSchema

open CompileM

/-! ## Causes -/

def CompileOptions.HasRef (options : CompileOptions) (root : Json) (key ref : String) : Prop :=
  ∃ content tokens, ∃ schema : Members Json, options.source? root key = some content ∧
    content.At tokens (.obj schema) ∧ schema.get? "$ref" = some (.str ref)

/-- A reference of a document, with the base of the document and what both come to. -/
structure CompileOptions.Refers (options : CompileOptions) (root : Json)
    (key base ref uri fragment : String) : Prop where
  hasRef : options.HasRef root key ref
  base_eq : options.base? root key = some base
  locate_eq : Uri.locate base ref = .ok (uri, fragment)

/-- A reference in the document with this key and base means the document `target` by its URI. -/
def CompileOptions.Means (options : CompileOptions) (root : Json)
    (key base uri target : String) : Prop :=
  if isOwnUri base uri then target = key else options.GoesBy root target uri

/-- The faults that a compilation may stop with. -/
inductive CompileOptions.Raises (options : CompileOptions) (root : Json) : CompileFault → Prop where
  /-- A document declares a URI for itself that has a fault. -/
  | identifier {key : String} {content : Json} {fault : Uri.Fault}
      (hsource : options.source? root key = some content)
      (hdeclared : declaredBase key content = .error fault) : Raises options root (.uri fault)
  | draft {declared location : String} : Raises options root (.unsupportedDraft declared location)
  /-- A document declares a draft that no message can show. -/
  | declaration {key : String} {content : Json} (hsource : options.source? root key = some content)
      (hlong : (DraftDeclaration.ofJson? (content.member? "$schema")).hasText = false) :
      Raises options root .noText
  | root {sort location : String} : Raises options root (.rootNotASchema sort location)
  | walk {key : String} {content : Json} {fault : CompileFault}
      (hsource : options.source? root key = some content) (h : content.StopsWalk fault) :
      Raises options root fault
  | uri {key base ref : String} {fault : Uri.Fault} (href : options.HasRef root key ref)
      (hbase : options.base? root key = some base) (hlocate : Uri.locate base ref = .error fault) :
      Raises options root (.uri fault)
  | document {key base ref uri fragment location : String}
      (hrefers : options.Refers root key base ref uri fragment)
      (hother : isOwnUri base uri = false) : Raises options root (.unresolved ref location)
  | anchor {key base ref uri fragment location : String}
      (hrefers : options.Refers root key base ref uri fragment)
      (hanchor : isAnchorFragment fragment = true) : Raises options root (.unresolved ref location)
  /-- The pointer of a reference leads to no schema. -/
  | place {key base ref uri fragment target location : String} {content : Json}
      (hrefers : options.Refers root key base ref uri fragment)
      (hmeans : options.Means root key base uri target)
      (hsource : options.source? root target = some content)
      (hnone : ∀ tokens value, Pointer.split ("#" ++ fragment) = .ok tokens →
        Pointer.resolve content tokens = .ok value → value.isSchema = false) :
      Raises options root (.unresolved ref location)
  /-- The pointer of a reference meets an array with digits that are no index. -/
  | index {key base ref uri fragment target : String} {content : Json} {tokens : List String}
      {fault : PointerFault} (hrefers : options.Refers root key base ref uri fragment)
      (hmeans : options.Means root key base uri target)
      (hsource : options.source? root target = some content)
      (hsplit : Pointer.split ("#" ++ fragment) = .ok tokens)
      (hresolve : Pointer.resolve content tokens = .error fault)
      (hfault : fault.isLookup = false) : Raises options root (.pointer fault)

theorem Compilation.Built.hasRef {options : CompileOptions} {root value : Json} {c : Compilation}
    {id : NodeId} {site : Site} {node : SchemaNode} {ref : String}
    (h : c.Built id site value node) (hc : c.Loaded options root) (href : node.ref = some ref) :
    options.HasRef root site.key ref := by
  obtain ⟨document, tokens, hdocument, -, hat⟩ := h.nodeOf.stands
  obtain ⟨schema, rfl, hget⟩ := h.ref_eq href
  exact ⟨document.content, tokens, schema,
    (hc.source hdocument).content, hat, hget⟩

theorem Pointer.isLookup_of_split {pointer : String} {fault : PointerFault}
    (h : split pointer = .error fault) : fault.isLookup = true := by
  have hchars : ∀ cs, ofChars cs = .error fault → fault.isLookup = true := by
    intro cs h
    unfold ofChars at h
    split at h <;> cases h
    rfl
  unfold split at h
  split at h
  · exact hchars _ h
  · exact hchars _ h

namespace CompileM

open Compilation

variable {options : CompileOptions} {root content : Json} {fault : CompileFault}
  {c c' : Compilation} {key base ref uri fragment target : String} {document : SourceDocument}

/-! ## Documents -/

theorem checkDraft_raises {key' : String} (hsource : options.source? root key' = some content)
    (h : Runs (checkDraft options key content) c (.error fault) c') :
    options.Raises root fault := by
  unfold checkDraft at h
  dsimp only at h
  split at h
  case isTrue =>
    replace h := runs_modify_bind.mp h
    exact nomatch (runs_pure.mp h).1
  split at h
  case isTrue hlong =>
    cases (runs_throw.mp h).1
    exact .declaration hsource (Bool.not_eq_true' _ ▸ hlong)
  split at h
  case isTrue =>
    cases (runs_throw.mp h).1
    exact .draft
  case isFalse =>
    rcases runs_bind_error.mp h with h | ⟨_, c₂, -, h⟩
    · replace h := runs_modify_bind.mp h
      exact nomatch (runs_modify.mp h).1
    · exact nomatch (runs_pure.mp h).1

theorem addDocument_raises (hsource : options.source? root key = some content)
    (h : Runs (addDocument options key content) c (.error fault) c') :
    options.Raises root fault := by
  rcases runs_bind_error.mp h with h | ⟨declared, c₁, -, h⟩
  · obtain ⟨⟨fault, hdeclared, rfl⟩, -⟩ := runs_lift_error.mp h
    exact .identifier hsource hdeclared
  replace h := runs_modify_bind.mp h
  rcases runs_bind_error.mp h with h | ⟨declaration, c₃, -, h⟩
  · exact checkDraft_raises hsource h
  · exact nomatch (runs_modify.mp h).1

theorem compileRoot_raises (hc : c.Aligned) (hloaded : c.Loaded options root)
    (hdocument : Members.get? c.documents key = some document)
    (h : Runs (compileRoot options key) c (.error fault) c') : options.Raises root fault := by
  replace h := runs_get_bind.mp h
  split at h
  case h_1 => exact nomatch (runs_pure.mp h).1
  case h_2 =>
    simp only [contentOf_eq hdocument] at h
    split at h
    · have hwalk := (compileEntry_visits ..).error h hc (stands_root hdocument)
      exact .walk (hloaded.source hdocument).content hwalk
    · cases (runs_throw.mp h).1
      exact .root

/-! ## References -/

section

variable (hrefers : options.Refers root key base ref uri fragment)

include hrefers

theorem takeDocument_raises (hother : isOwnUri base uri = false)
    (h : Runs (takeDocument options ref key uri) c (.error fault) c') :
    options.Raises root fault := by
  replace h := runs_get_bind.mp h
  split at h
  case h_1 => exact nomatch (runs_pure.mp h).1
  case h_2 content _ hcontent =>
    have huri : uri ≠ "" := by
      rintro rfl
      cases hother
    have hsource : options.source? root uri = some content := by
      rw [CompileOptions.source?, if_neg huri, hcontent]
    rcases runs_bind_error.mp h with h | ⟨_, c₃, -, h⟩
    · exact addDocument_raises hsource h
    · exact nomatch (runs_pure.mp h).1
  case h_3 =>
    cases (runs_throw.mp h).1
    exact .document hrefers hother

theorem targetDocument_raises (hc : c.Aligned) (hloaded : c.Loaded options root)
    (h : Runs (targetDocument options ref key base uri) c (.error fault) c') :
    options.Raises root fault := by
  unfold targetDocument at h
  split at h
  case isTrue => exact nomatch (runs_pure.mp h).1
  case isFalse hown =>
    have huri : uri ≠ "" := by
      rintro rfl
      exact hown rfl
    rcases runs_bind_error.mp h with h | ⟨target, c₁, htake, h⟩
    · exact takeDocument_raises hrefers (Bool.not_eq_true _ ▸ hown) h
    have hhash := Uri.hash_notMem_of_locate hrefers.locate_eq
    obtain ⟨htakes, ⟨document, hmem, -⟩, -⟩ := takeDocument_ok hloaded huri hhash htake
    have hloaded₁ := htakes.loaded hloaded
    rcases runs_bind_error.mp h with h | ⟨node, c₂, -, h⟩
    · exact compileRoot_raises (htakes.aligned hc) hloaded₁ (hloaded₁.get?_iff.mpr hmem) h
    · exact nomatch (runs_pure.mp h).1

theorem anchorTarget_raises (hanchor : isAnchorFragment fragment = true)
    (h : Runs (anchorTarget ref target fragment) c (.error fault) c') :
    options.Raises root fault := by
  replace h := runs_get_bind.mp h
  split at h
  case h_1 => exact nomatch (runs_pure.mp h).1
  case h_2 =>
    cases (runs_throw.mp h).1
    exact .anchor hrefers hanchor

theorem pointerTarget_raises (hmeans : options.Means root key base uri target)
    (hc : c.Aligned) (hloaded : c.Loaded options root)
    (hdocument : Members.get? c.documents target = some document)
    (h : Runs (pointerTarget options ref target fragment) c (.error fault) c') :
    options.Raises root fault := by
  have hsource := (hloaded.source hdocument).content
  rcases runs_bind_error.mp h with h | ⟨tokens, c₁, hlift, h⟩
  · obtain ⟨⟨inner, hsplit, rfl⟩, -⟩ := runs_lift_error.mp h
    rw [pointerFault, if_pos (Pointer.isLookup_of_split hsplit)]
    exact .place hrefers hmeans hsource fun tokens value hok => nomatch hsplit.symm.trans hok
  obtain ⟨hsplit, rfl⟩ := runs_lift_ok.mp hlift
  replace h := runs_get_bind.mp h
  split at h
  case h_1 => exact nomatch (runs_pure.mp h).1
  case h_2 =>
    rw [contentOf_eq hdocument] at h
    rcases runs_bind_error.mp h with h | ⟨value, c₁, hlift, h⟩
    · obtain ⟨⟨inner, hresolve, rfl⟩, -⟩ := runs_lift_error.mp h
      unfold pointerFault
      split
      case isTrue =>
        refine .place hrefers hmeans hsource fun tokens value hok hvalue => ?_
        cases hsplit.symm.trans hok
        cases hresolve.symm.trans hvalue
      case isFalse hlookup =>
        exact .index hrefers hmeans hsource hsplit hresolve (Bool.not_eq_true _ ▸ hlookup)
    obtain ⟨hresolve, rfl⟩ := runs_lift_ok.mp hlift
    have hat := Pointer.resolve_at hresolve
    unfold compileTarget at h
    split at h
    case isTrue =>
      replace h := runs_modify_bind.mp h
      have hwalk := (compileEntry_visits ..).error h ⟨hc.size, hc.nodup⟩
        ⟨document, tokens, hdocument, rfl, hat⟩
      exact .walk hsource (hwalk.inside hat)
    case isFalse hschema =>
      cases (runs_throw.mp h).1
      refine .place hrefers hmeans hsource fun tokens' value' hok hvalue => ?_
      cases hsplit.symm.trans hok
      cases hresolve.symm.trans hvalue
      exact Bool.not_eq_true _ ▸ hschema

end

theorem resolveRef_raises (hc : c.Aligned) (hloaded : c.Loaded options root)
    (hdocument : Members.get? c.documents key = some document)
    (href : options.HasRef root key ref)
    (h : Runs (resolveRef options ref key) c (.error fault) c') : options.Raises root fault := by
  have hbase : options.base? root key = some (c.baseOf key) :=
    baseOf_eq hdocument ▸ (hloaded.source hdocument).base?_eq
  replace h := runs_get_bind.mp h
  rcases runs_bind_error.mp h with h | ⟨⟨uri, fragment⟩, c₁, hlift, h⟩
  · obtain ⟨⟨inner, hlocate, rfl⟩, -⟩ := runs_lift_error.mp h
    exact .uri href hbase hlocate
  obtain ⟨hlocate, rfl⟩ := runs_lift_ok.mp hlift
  have hrefers : options.Refers root key (c.baseOf key) ref uri fragment := ⟨href, hbase, hlocate⟩
  have hhash := Uri.hash_notMem_of_locate hlocate
  rcases runs_bind_error.mp h with h | ⟨target, c₁, htarget, h⟩
  · exact targetDocument_raises hrefers hc hloaded h
  -- What went before only added documents and nodes, so the document is still the same.
  obtain ⟨c₂, htakes, hwalk, hmeans, -⟩ := targetDocument_ok fragment hc hloaded hhash htarget
  split at h
  case isTrue hanchor => exact anchorTarget_raises hrefers hanchor h
  case isFalse =>
    have hloaded₁ := hwalk.loaded (htakes.loaded hloaded)
    have hextends := htakes.before.extends_.trans hwalk.extends
    have hmeans₁ : c₁.Means key uri target := by
      rw [Means, hextends.baseOf hdocument]
      exact hmeans
    obtain ⟨found, hfound⟩ := hmeans₁.taken hloaded₁ (hextends.documents _ _ hdocument)
    have hgoes : options.Means root key (c.baseOf key) uri target := by
      unfold CompileOptions.Means
      split at hmeans
      case isTrue hown => rwa [if_pos hown]
      case isFalse hother =>
        rw [if_neg hother]
        exact hmeans.goesBy hloaded₁
    exact pointerTarget_raises hrefers hgoes hwalk.aligned hloaded₁ hfound h

theorem resolveFirst_raises {first : PendingRef} {rest : List PendingRef}
    (hsound : Sound options root [] c) (hpending : c.pending = first :: rest)
    (h : Runs (resolveFirst options first rest) c (.error fault) c') :
    options.Raises root fault := by
  replace h := runs_modify_bind.mp h
  have hbegin := hsound.begin hpending
  obtain ⟨site, value, node, hbuilt, hkey, href⟩ := hbegin.awaits first List.mem_cons_self
  obtain ⟨document, hdocument, -⟩ := hbuilt.declaration
  rcases runs_bind_error.mp h with h | ⟨target, c₂, -, h⟩
  · exact resolveRef_raises hbegin.aligned hbegin.loaded (hkey ▸ hdocument)
      (hkey ▸ hbuilt.hasRef hbegin.loaded href) h
  replace h := runs_get_bind.mp h
  replace h := runs_modify_bind.mp h
  exact nomatch (runs_modify.mp h).1

/-! ## Whole compilations -/

theorem resolvePending_raises {fuel : Nat} (hsound : Sound options root [] c)
    (h : Runs (resolvePending options fuel) c (.error fault) c') : options.Raises root fault := by
  induction fuel generalizing c with
  | zero => exact nomatch (runs_pure.mp h).1
  | succ fuel ih =>
    replace h := runs_get_bind.mp h
    split at h
    case h_1 => exact nomatch (runs_pure.mp h).1
    case h_2 first rest hpending =>
      rcases runs_bind_error.mp h with h | ⟨_, c₁, hfirst, h⟩
      · exact resolveFirst_raises hsound hpending h
      · exact ih (resolveFirst_sound hsound hpending hfirst).1 h

theorem compileDocument_raises (h : Runs (compileDocument options root) {} (.error fault) c) :
    options.Raises root fault := by
  rcases runs_bind_error.mp h with h | ⟨_, c₁, hadd, h⟩
  · have hsource : options.source? root "" = some root := rfl
    exact addDocument_raises hsource h
  obtain ⟨declared, warnings, log, hdeclared, haccepts, rfl⟩ := addDocument_ok hadd
  have hstart : Sound options root [] (taken {} "" root declared warnings log) :=
    sound_start warnings log hdeclared haccepts
  have hdocument : Members.get? (taken {} "" root declared warnings log).documents "" = some _ :=
    rfl
  rcases runs_bind_error.mp h with h | ⟨id, c₂, hroot, h⟩
  · exact compileRoot_raises hstart.aligned hstart.loaded hdocument h
  rcases runs_bind_error.mp h with h | ⟨_, c₃, -, h⟩
  · exact resolvePending_raises (compileRoot_sound hdeclared haccepts hroot).1 h
  replace h := runs_get_bind.mp h
  replace h := runs_modify_bind.mp h
  exact nomatch (runs_pure.mp h).1

end CompileM

end JsonSchema

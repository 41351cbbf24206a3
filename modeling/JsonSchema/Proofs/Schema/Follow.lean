import JsonSchema.Proofs.Schema.Orderly

/-!
# A compilation that follows another one

A compilation follows a finished one when its documents differ from the other's in no more than the
order of members, and it has nodes only where the other one has them. The other one then tells that
whatever comes next completes: each place was met there already, and found in order.
-/

namespace JsonSchema

open CompileM

structure SourceDocument.Twin (document twin : SourceDocument) : Prop where
  content : document.content.Reordered twin.content
  base : document.base = twin.base
  declaration : document.declaration.Agrees twin.declaration

namespace Compilation

variable {options : CompileOptions} {root : Json} {c d e : Compilation} {key location : String}

/-- `d` has met nothing that `c` has not met, but for the order of members. -/
structure Follows (d c : Compilation) : Prop where
  aligned : d.Aligned
  locations : d.locations.toList ⊆ c.locations.toList
  documents : ∀ key twin, Members.get? d.documents key = some twin →
    ∃ document, Members.get? c.documents key = some document ∧ document.Twin twin

theorem Follows.same (h : d.Follows c) (hdocuments : e.documents = d.documents)
    (hlocations : e.locations = d.locations) (hsize : e.nodes.size = d.nodes.size) :
    e.Follows c where
  aligned := ⟨by rw [hlocations, hsize, h.aligned.size], by rw [hlocations]; exact h.aligned.nodup⟩
  locations := hlocations ▸ h.locations
  documents := hdocuments ▸ h.documents

theorem Follows.started (h : d.Follows c) (hnew : d.nodeAt? location = none)
    (hold : location ∈ c.locations.toList) (pending : List PendingRef)
    (anchors : List ((String × String) × NodeId)) :
    (d.started location pending anchors).Follows c where
  aligned := started_aligned h.aligned (notMem_of_nodeAt? hnew)
  locations := by
    intro other hmem
    rw [Compilation.started, reserved, Array.toList_push] at hmem
    rcases List.mem_append.mp hmem with hmem | hmem
    · exact h.locations hmem
    · exact List.mem_singleton.mp hmem ▸ hold
  documents := h.documents

theorem Follows.taken {document : SourceDocument} {declared : String} {warnings : List String}
    {log : Log} (h : d.Follows c) (hdocument : Members.get? c.documents key = some document)
    (hwell : document.content.isWellFormed = true)
    (hbase : document.base = documentBase key declared) (hdeclaration : document.declaration =
      DraftDeclaration.ofJson? (document.content.member? "$schema")) :
    (d.taken key document.content declared warnings log).Follows c where
  aligned := ⟨h.aligned.size, h.aligned.nodup⟩
  locations := h.locations
  documents := by
    intro other twin htwin
    rw [get?_taken] at htwin
    split at htwin
    case isTrue hother =>
      obtain rfl := Option.some.inj htwin
      exact ⟨document, hother ▸ hdocument, .refl hwell, hbase, hdeclaration ▸ .refl _⟩
    case isFalse => exact h.documents other twin htwin

theorem Follows.placed (h : d.Follows c) (node : SchemaNode) : (d.placed node).Follows c :=
  h.same rfl rfl (Array.size_set! ..)

theorem mem_locations_iff {pointer : String} :
    locationOf key pointer ∈ c.locations.toList ↔ ∃ id, c.Located key pointer id := by
  simp only [Located, ← Array.getElem?_toList, List.mem_iff_getElem?]

theorem Follows.built {root' : Json} {current current' : List PendingRef} {id : NodeId}
    {site : Site} {value : Json} {node : SchemaNode} (h : d.Follows c)
    (hc : Sound options root current c) (horderly : options.Orderly root)
    (hd : Sound options root' current' d) (hbuilt : d.Built id site value node) :
    ∃ id' site' value' node', c.Built id' site' value' node' ∧ site'.key = site.key ∧
      site'.pointer = site.pointer ∧ value'.Reordered value := by
  obtain ⟨id', hlocated⟩ := mem_locations_iff.mp
    (h.locations (mem_locations_iff.mpr ⟨id, hbuilt.nodeOf.located⟩))
  have hid := hlocated.lt
  rw [hc.aligned.size] at hid
  obtain ⟨site', value', node', hbuilt', -⟩ := hc.built id' hid
  obtain ⟨hkey, hpointer⟩ :=
    (hbuilt'.located_iff hc.loaded (hbuilt.hash hd.loaded)).mp hlocated
  refine ⟨id', site', value', node', hbuilt', hkey.symm, hpointer.symm, ?_⟩
  obtain ⟨document, tokens, hdocument, htokens, hleads⟩ := hc.leads horderly hbuilt'
  obtain ⟨twin, tokens', htwin, htokens', hat⟩ := hbuilt.nodeOf.stands
  obtain ⟨document', hdocument', hsame⟩ := h.documents _ twin htwin
  rw [hkey, hdocument, Option.some.injEq] at hdocument'
  subst hdocument'
  rw [hpointer, htokens] at htokens'
  obtain rfl := Pointer.ofTokens_injective htokens'
  obtain ⟨found, hfound, hvalue⟩ := hsame.content.leads hleads
  exact hat.unique hsame.content.right hfound.at ▸ hvalue

theorem Built.isSchema {id : NodeId} {site : Site} {value : Json} {node : SchemaNode}
    (h : c.Built id site value node) : value.isSchema = true := by
  have hreading := h.reading c (Extends.refl c)
  cases value <;> first | rfl | exact hreading.elim

theorem Built.ref_reordered {id id' : NodeId} {site site' : Site} {value value' : Json}
    {node node' : SchemaNode} (h : c.Built id site value node) (h' : d.Built id' site' value' node')
    (hvalue : value.Reordered value') : node.ref = node'.ref := by
  have hreading := h.reading c (Extends.refl c)
  have hreading' := h'.reading d (Extends.refl d)
  cases hvalue.parts with
  | bool b => rw [show node = _ from hreading, show node' = _ from hreading']
  | obj hvalue =>
    have href := SchemaReading.ref hreading
    have href' := SchemaReading.ref hreading'
    rw [readRef_eq hvalue, href', Except.ok.injEq] at href
    exact href.symm
  | _ => exact hreading.elim

end Compilation

namespace CompileM

open Compilation

variable {options : CompileOptions} {root : Json} {c e : Compilation} {key pointer : String}
  {site : Site} {schema : Members Json} {value inner : Json} {document twin : SourceDocument}
  {owner : Owner}

/-! ## Visits -/

def FollowsIn (c : Compilation) (key : String) (twin : SourceDocument) (e : Compilation) : Prop :=
  e.Follows c ∧ Members.get? e.documents key = some twin

theorem quiet_followsIn : Quiet (FollowsIn c key twin) :=
  fun _ _ _ h => ⟨h.1.same rfl rfl rfl, h.2⟩

theorem readIdentity_runs (id : NodeId) (h : Legible site schema) : ∃ ref pending anchors,
    Runs (readIdentity site id schema) c (.ok ref)
      { c with pending := c.pending ++ pending, anchors := anchors ++ c.anchors } := by
  obtain ⟨ref, href⟩ := h.ref
  obtain ⟨names, hnames⟩ := h.anchors
  refine ⟨ref, ref.toList.map fun ref => ⟨id, ref, site.key⟩,
    (names.map fun name => ((site.key, name), id)).reverse, ?_⟩
  refine runs_bind_ok.mpr ⟨ref, c, runs_lift_ok.mpr ⟨href, rfl⟩, runs_modify_bind.mpr ?_⟩
  refine runs_bind_ok.mpr ⟨names, _, runs_lift_ok.mpr ⟨hnames, rfl⟩, runs_modify_bind.mpr ?_⟩
  exact runs_pure.mpr ⟨rfl, rfl⟩

theorem compileNew_completes (options : CompileOptions) (owner : Owner) (compile : CompileChild)
    (he : FollowsIn c key twin e) (site : Site) (hnew : e.nodeAt? site.location = none)
    (hold : site.location ∈ c.locations.toList) (hschema : value.isSchema = true)
    (hobject : ∀ schema, value = .obj schema → Legible site schema ∧
      Completes.Subvisits (FollowsIn c key twin) compile site schema) :
    ∃ id e', Runs (compileNew options (some compile) owner site value) e (.ok id) e' ∧
      FollowsIn c key twin e' := by
  obtain ⟨hfollows, hdocument⟩ := he
  have hstart := hfollows.started hnew hold
  cases value with
  | bool b =>
    refine ⟨e.nodes.size, _, runs_bind_ok.mpr ⟨_, _, runs_reserve.mpr ⟨rfl, rfl⟩,
      runs_modify_bind.mpr (runs_pure.mpr ⟨rfl, rfl⟩)⟩, ?_, hdocument⟩
    exact (hstart [] []).same rfl rfl (Array.size_set! ..)
  | obj schema =>
    obtain ⟨hlegible, hvisits⟩ := hobject schema rfl
    obtain ⟨ref, pending, anchors, hidentity⟩ :=
      readIdentity_runs (c := e.reserved site.location) e.nodes.size hlegible
    obtain ⟨node, e', hkeywords, ⟨hfollows', hdocument'⟩, -⟩ :=
      Completes.compileKeywords hlegible hvisits quiet_followsIn options e.nodes.size ref _
        ⟨hstart pending anchors, hdocument⟩
    refine ⟨e.nodes.size, _, runs_bind_ok.mpr ⟨_, _, runs_reserve.mpr ⟨rfl, rfl⟩,
      runs_bind_ok.mpr ⟨node, e', runs_bind_ok.mpr ⟨ref, _, hidentity, hkeywords⟩,
        runs_modify_bind.mpr (runs_pure.mpr ⟨rfl, rfl⟩)⟩⟩, hfollows'.placed node, hdocument'⟩
  | _ => cases hschema

theorem visit_known {id : NodeId} (children : Option CompileChild)
    (h : e.nodeAt? (locationOf key pointer) = some id) :
    Runs (visit options children owner key pointer value) e (.ok id) e := by
  refine runs_get_bind.mpr ?_
  rw [h]
  exact runs_pure.mpr ⟨rfl, rfl⟩

theorem visit_new {id : NodeId} {e' : Compilation} {children : Option CompileChild}
    (h : e.nodeAt? (locationOf key pointer) = none)
    (hrun : Runs (compileNew options children owner ⟨key, pointer, e.declarationOf key⟩ value) e
      (.ok id) e') : Runs (visit options children owner key pointer value) e (.ok id) e' := by
  refine runs_get_bind.mpr ?_
  rw [h]
  exact hrun

/-- A place that has a node in `c` can be visited, where schemas do not nest too deep. -/
theorem compileNode_completes (hc : Sound options root [] c)
    (hdocument : Members.get? c.documents key = some document) (htwin : document.Twin twin)
    (budget : Nat) (owner : Owner) (hnode : ∃ id, c.NodeOf key pointer inner id)
    (hvalue : inner.Reordered value)
    (hdepth : ∀ more below, value.Leads more below → more.length < budget) :
    Completes (FollowsIn c key twin) (compileNode options budget owner key pointer value)
      fun _ => True := by
  induction budget generalizing owner pointer value inner with
  | zero => exact absurd (hdepth [] value .root) (Nat.lt_irrefl 0)
  | succ budget ih =>
    intro e he
    obtain ⟨id, hnode⟩ := hnode
    cases hknown : e.nodeAt? (locationOf key pointer) with
    | some found => exact ⟨found, e, visit_known _ hknown, he, trivial⟩
    | none =>
      obtain ⟨site, node, hbuilt, -, -, rfl, rfl⟩ :=
        hc.built_of_nodeOf hdocument htwin.content.left hnode
      have hreading := hbuilt.reading c (Extends.refl c)
      obtain ⟨found, hfound, hdeclaration⟩ := hbuilt.declaration
      obtain rfl := Option.some.inj (hdocument.symm.trans hfound)
      have hagrees : site.declaration.Agrees (e.declarationOf site.key) := by
        rw [← hdeclaration, declarationOf, he.2]
        exact htwin.declaration
      have hschema : value.isSchema = true := hvalue.isSchema_eq ▸ hbuilt.isSchema
      have hnew := compileNew_completes options owner (fun site child =>
        compileNode options budget ⟨site.location, child.keyword⟩ site.key
          (Pointer.join site.pointer (child.keyword :: child.tokens)) child.value)
        he ⟨site.key, site.pointer, e.declarationOf site.key⟩ hknown
        (mem_locations_iff.mpr ⟨id, hnode.located⟩) hschema ?_
      · obtain ⟨id, e', hrun, he'⟩ := hnew
        exact ⟨id, e', visit_new hknown hrun, he', trivial⟩
      -- What the node in `c` was read from tells that the same keywords are in order here.
      · rintro schema' rfl
        obtain ⟨schema, rfl, -⟩ := hvalue.symm.obj
        refine ⟨Legible.reordered hvalue (SchemaReading.legible hreading) rfl hagrees, ?_⟩
        intro keyword tokens child hchild
        obtain ⟨child', hchild', hsame⟩ := hchild.reordered hvalue.symm hagrees.symm
        refine ih _ (SchemaReading.exists_child hreading hchild') hsame.symm
          fun more below hmore => ?_
        have hlength := hdepth _ below (hchild.leads.append hmore)
        simp only [List.length_append, List.length_cons] at hlength
        omega

end CompileM

end JsonSchema

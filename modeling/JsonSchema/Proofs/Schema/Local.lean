import JsonSchema.Proofs.Schema.Raise
import JsonSchema.Proofs.Uri.Fragment

/-!
# References inside a document

A reference that is a hash mark and a pointer stays in its document when the base of the document
is spelled as it comes out of joining. With another base it is looked for in other documents.
-/

namespace JsonSchema

open CompileM

/-! ## References to places of the same document -/

/-- The reference is a hash mark with nothing or with the text of a pointer behind it. -/
structure PointerFragment (ref fragment : String) : Prop where
  spelled : ref = "#" ++ fragment
  start : fragment = "" ∨ fragment.toList.head? = some '/'
  /-- A tab or a line end would be dropped. -/
  visible : ∀ c ∈ fragment.toList, Uri.isRemoved c = false

def EncodesPointer (ref : String) (tokens : List String) : Prop :=
  ∃ fragment, PointerFragment ref fragment ∧ Uri.percentDecode fragment = Pointer.ofTokens tokens

/-- The reference means a schema inside the document with this key. -/
def CompileOptions.LocalRef (options : CompileOptions) (root : Json) (key ref : String)
    (tokens : List String) : Prop :=
  EncodesPointer ref tokens ∧ ∃ content value, options.source? root key = some content ∧
    Pointer.resolve content tokens = .ok value ∧ value.isSchema = true

/-- Fragments of the document with this key stay in it. -/
def CompileOptions.KeepsFragments (options : CompileOptions) (root : Json) (key : String) : Prop :=
  ∃ base ∈ options.base? root key, Uri.Stable base

/-- A schema object has the reference, and it is none to a place of its own document. -/
def CompileOptions.Dangling (options : CompileOptions) (root : Json) (ref : String) : Prop :=
  ∃ key, options.HasRef root key ref ∧
    ∀ tokens, options.KeepsFragments root key → ¬ options.LocalRef root key ref tokens

theorem PointerFragment.locate {base ref fragment : String} (h : PointerFragment ref fragment)
    (hbase : Uri.Stable base) : ∃ uri, Uri.locate base ref = .ok (uri, fragment) ∧
      isOwnUri base uri = true ∧ isAnchorFragment fragment = false := by
  obtain ⟨rfl, hstart, hvisible⟩ := h
  obtain ⟨uri, hlocate, hown⟩ := Uri.locate_stable fragment hbase
  have hsame : String.ofList (Uri.visible fragment) = fragment := by
    have hall : Uri.visible fragment = fragment.toList :=
      List.filter_eq_self.mpr fun c hc => by rw [hvisible c hc]; rfl
    rw [hall, String.ofList_toList]
  rw [hsame] at hlocate
  refine ⟨uri, hlocate, ?_, ?_⟩
  · rcases hown with rfl | rfl <;> simp [isOwnUri]
  · rcases hstart with rfl | hslash
    · rfl
    · simp [isAnchorFragment, hslash]

/-- A local reference names its own document, and its fragment is the pointer with the tokens. -/
theorem CompileOptions.LocalRef.meant {options : CompileOptions} {root : Json}
    {key base ref uri fragment : String} {tokens : List String}
    (hlocal : options.LocalRef root key ref tokens) (hkeeps : options.KeepsFragments root key)
    (hbase : options.base? root key = some base)
    (hlocate : Uri.locate base ref = .ok (uri, fragment)) :
    isOwnUri base uri = true ∧ isAnchorFragment fragment = false ∧
      Pointer.split ("#" ++ fragment) = .ok tokens := by
  obtain ⟨⟨fragment', hfragment, hdecode⟩, -⟩ := hlocal
  obtain ⟨base', hmem, hstable⟩ := hkeeps
  obtain rfl := Option.some.inj (hbase.symm.trans hmem)
  obtain ⟨uri', hlocate', hown, hanchor⟩ := hfragment.locate hstable
  cases hlocate.symm.trans hlocate'
  exact ⟨hown, hanchor, Pointer.split_of_decodes hdecode⟩

/-! ## References that are not resolved -/

theorem CompileOptions.Raises.dangling {options : CompileOptions} {root : Json}
    {ref location : String} (h : options.Raises root (.unresolved ref location)) :
    options.Dangling root ref := by
  cases h with
  | walk _ hwalk =>
    cases hwalk with
    | escape h => cases h
  | document hrefers hother =>
    refine ⟨_, hrefers.hasRef, fun tokens hkeeps hlocal => ?_⟩
    obtain ⟨hown, -⟩ := hlocal.meant hkeeps hrefers.base_eq hrefers.locate_eq
    cases hother.symm.trans hown
  | anchor hrefers hanchor =>
    refine ⟨_, hrefers.hasRef, fun tokens hkeeps hlocal => ?_⟩
    obtain ⟨-, hpointer, -⟩ := hlocal.meant hkeeps hrefers.base_eq hrefers.locate_eq
    cases hanchor.symm.trans hpointer
  | place hrefers hmeans hsource hnone =>
    refine ⟨_, hrefers.hasRef, fun tokens hkeeps hlocal => ?_⟩
    obtain ⟨hown, -, hsplit⟩ := hlocal.meant hkeeps hrefers.base_eq hrefers.locate_eq
    obtain ⟨-, content, value, hcontent, hvalue, hschema⟩ := hlocal
    -- The reference means its own document, so this is the one that its pointer is looked up in.
    rw [CompileOptions.Means, if_pos hown] at hmeans
    subst hmeans
    obtain rfl := Option.some.inj (hsource.symm.trans hcontent)
    cases (hnone tokens value hsplit hvalue).symm.trans hschema

theorem CompileM.compileDocument_unresolved {options : CompileOptions} {root : Json}
    {c : Compilation} {ref location : String}
    (h : Runs (compileDocument options root) {} (.error (.unresolved ref location)) c) :
    options.Dangling root ref :=
  (compileDocument_raises h).dangling

/-! ## References that are resolved -/

namespace Compilation.Finished

variable {options : CompileOptions} {root : Json} {c : Compilation} {id : NodeId} {site : Site}
  {value : Json} {node : SchemaNode} {ref : String} {tokens : List String}

theorem target_of_local (h : Finished options root c) (hbuilt : c.Built id site value node)
    (href : node.ref = some ref) (hkeeps : options.KeepsFragments root site.key)
    (hlocal : options.LocalRef root site.key ref tokens) :
    ∃ target found, c.targets.lookup id = some target ∧ c.freeze.node? target = some found ∧
      found.location = locationOf site.key (Pointer.ofTokens tokens) := by
  obtain ⟨document, hdocument, -⟩ := hbuilt.declaration
  obtain ⟨target, htarget, uri, fragment, key, hlocate, hmeans, hpoints⟩ :=
    h.lookup_of_ref hbuilt href
  have hbase := baseOf_eq hdocument ▸ (h.sound.loaded.source hdocument).base?_eq
  obtain ⟨hown, hanchor, hsplit⟩ := hlocal.meant hkeeps hbase hlocate
  rw [Means, if_pos hown] at hmeans
  subst hmeans
  rw [PointsTo, hanchor, if_neg Bool.false_ne_true] at hpoints
  obtain ⟨tokens', hsplit', hlocated⟩ := hpoints
  rw [hsplit] at hsplit'
  cases hsplit'
  obtain ⟨site', value', node', hbuilt', hkey, hpointer⟩ :=
    h.built_of_located (Members.mem_of_get? hdocument) hlocated
  refine ⟨target, _, htarget, h.node?_of_built hbuilt', ?_⟩
  exact hbuilt'.location.trans (by rw [Site.location, hkey, hpointer])

theorem leaves_of_not_keeps {target : NodeId} {found : SchemaNode} (h : Finished options root c)
    (hbuilt : c.Built id site value node) (href : node.ref = some "#") (hroot : site.key = "")
    (hkeeps : ¬ options.KeepsFragments root "") (htarget : c.targets.lookup id = some target)
    (hfound : c.freeze.node? target = some found) : found.documentKey ≠ "" := by
  obtain ⟨document, hdocument, -⟩ := hbuilt.declaration
  obtain ⟨target', htarget', uri, fragment, key, hlocate, hmeans, hpoints⟩ :=
    h.lookup_of_ref hbuilt href
  rw [htarget, Option.some.injEq] at htarget'
  subst htarget'
  rw [hroot] at hdocument hlocate hmeans
  have hsource := h.sound.loaded.source hdocument
  have hbase := baseOf_eq hdocument
  rw [hbase] at hlocate
  have hother : ¬ (uri = "" ∨ uri = document.base) := fun hown =>
    hkeeps ⟨document.base, hsource.base?_eq, Uri.stable_of_locate hlocate hown⟩
  rw [Means, hbase, isOwnUri, if_neg (by simpa using hother)] at hmeans
  obtain ⟨source, hmem, huri⟩ := hmeans
  obtain ⟨node', hnode', -, hkey, -⟩ := h.node_of_pointsTo hmem hpoints
  rw [hfound, Option.some.injEq] at hnode'
  subst hnode'
  rw [hkey]
  rintro rfl
  have hsame : source = document :=
    Option.some.inj ((h.sound.loaded.get?_iff.mpr hmem).symm.trans hdocument)
  exact hother (huri.imp_right fun heq => heq.trans (congrArg _ hsame))

end Compilation.Finished

/--
A reference to a place of its own document resolves to the node of this place, in each document
whose base is spelled as it comes out of joining, and is never one that has no target. With another
base of the compiled document, the reference to the document itself resolves to none of its nodes.
-/
theorem local_refs_stay (options : CompileOptions) (root : Json) :
    (∀ schema id node ref tokens, (runCompile options root).result = .ok schema →
      schema.node? id = some node → node.ref = some ref →
      options.KeepsFragments root node.documentKey →
      options.LocalRef root node.documentKey ref tokens →
      ∃ target found, node.refTarget = some target ∧ schema.node? target = some found ∧
        found.location = locationOf node.documentKey (Pointer.ofTokens tokens)) ∧
    (∀ ref location, (runCompile options root).result = .error (.unresolved ref location) →
      options.Dangling root ref) ∧
    (∀ schema id node target found, (runCompile options root).result = .ok schema →
      ¬ options.KeepsFragments root "" → schema.node? id = some node → node.documentKey = "" →
      node.ref = some "#" → node.refTarget = some target → schema.node? target = some found →
      found.documentKey ≠ "") := by
  refine ⟨?_, ?_, ?_⟩
  · intro schema id node ref tokens h hnode href hkeeps hlocal
    obtain ⟨c, hc, rfl⟩ := finished_of_result h
    obtain ⟨site, value, node, hbuilt, rfl⟩ := hc.built_of_node? hnode
    have hkey := hbuilt.documentKey hc.sound.loaded
    exact hkey ▸ hc.target_of_local hbuilt href (hkey ▸ hkeeps) (hkey ▸ hlocal)
  · intro ref location h
    obtain ⟨c, hrun⟩ := runs_of_result h
    exact CompileM.compileDocument_unresolved hrun
  · intro schema id node target found h hkeeps hnode hroot href htarget hfound
    obtain ⟨c, hc, rfl⟩ := finished_of_result h
    obtain ⟨site, value, node, hbuilt, rfl⟩ := hc.built_of_node? hnode
    have hkey := hbuilt.documentKey hc.sound.loaded
    exact hc.leaves_of_not_keeps hbuilt href (hkey.symm.trans hroot) hkeeps htarget hfound

def plainBase : Json :=
  .obj [("$id", .str "http://example.com/s"), ("$ref", .str "#/$defs/a"),
    ("$defs", .obj [("a", .bool true)])]

def capitalBase : Json :=
  .obj [("$id", .str "HTTP://example.com/s"), ("allOf", .arr [.obj [("$ref", .str "#")]])]

def emptyHanded : Json := .obj [("$ref", .str "#/none")]

/-- One reference stays, one leads out of its document and one leads nowhere. -/
theorem local_refs_of_three_bases :
    (∃ schema node target found, (runCompile ⟨10, false, []⟩ plainBase).result = .ok schema ∧
      schema.node? 0 = some node ∧ node.refTarget = some target ∧
      schema.node? target = some found ∧ found.location = "#/$defs/a") ∧
    (∃ location, (runCompile ⟨10, false, []⟩ emptyHanded).result =
        .error (.unresolved "#/none" location) ∧
      CompileOptions.Dangling ⟨10, false, []⟩ emptyHanded "#/none") ∧
    (∃ schema node target found,
      (runCompile ⟨10, false, [("http://example.com/s", .bool true)]⟩ capitalBase).result =
        .ok schema ∧
      schema.node? 1 = some node ∧ node.ref = some "#" ∧ node.refTarget = some target ∧
      schema.node? target = some found ∧ found.documentKey ≠ "") := by
  refine ⟨?_, ?_, ?_⟩
  · have hrun : (runCompile ⟨10, false, []⟩ plainBase).result.toOption.bind (fun schema =>
        (schema.node? 0).map fun node => (node.ref, node.documentKey)) =
        some (some "#/$defs/a", "") := by decide +kernel
    simp only [Option.bind_eq_some_iff, Option.map_eq_some_iff, Prod.mk.injEq,
      Except.toOption_eq_some] at hrun
    obtain ⟨schema, hschema, node, hnode, href, hkey⟩ := hrun
    have hkeeps : CompileOptions.KeepsFragments ⟨10, false, []⟩ plainBase "" := by
      unfold CompileOptions.KeepsFragments
      decide +kernel
    have hvisible : ("/$defs/a".toList.all (!Uri.isRemoved ·)) = true := by decide +kernel
    have hencodes : EncodesPointer "#/$defs/a" ["$defs", "a"] := by
      refine ⟨"/$defs/a", ⟨rfl, .inr rfl, fun c hc => ?_⟩, by decide +kernel⟩
      simpa using List.all_eq_true.mp hvisible c hc
    obtain ⟨target, found, htarget, hfound, hlocation⟩ :=
      (local_refs_stay ⟨10, false, []⟩ plainBase).1 schema 0 node "#/$defs/a" ["$defs", "a"] hschema
        hnode href (hkey ▸ hkeeps) ⟨hencodes, plainBase, .bool true, hkey ▸ rfl, rfl, rfl⟩
    refine ⟨schema, node, target, found, hschema, hnode, htarget, hfound, ?_⟩
    rw [hlocation, hkey]
    decide +kernel
  · have hrun : ∃ location, (runCompile ⟨10, false, []⟩ emptyHanded).result =
        .error (.unresolved "#/none" location) := by
      have hfault : (match (runCompile ⟨10, false, []⟩ emptyHanded).result with
          | .error (.unresolved ref _) => some ref
          | _ => none) = some "#/none" := by decide +kernel
      split at hfault
      case h_1 ref location h =>
        cases hfault
        exact ⟨location, h⟩
      case h_2 => cases hfault
    obtain ⟨location, hrun⟩ := hrun
    exact ⟨location, hrun, (local_refs_stay _ _).2.1 _ _ hrun⟩
  · have hrun : (runCompile ⟨10, false, [("http://example.com/s", .bool true)]⟩
        capitalBase).result.toOption.bind (fun schema => (schema.node? 1).bind fun node =>
          node.refTarget.bind fun target => (schema.node? target).map fun found =>
            (node.ref, node.documentKey)) = some (some "#", "") := by decide +kernel
    simp only [Option.bind_eq_some_iff, Option.map_eq_some_iff, Prod.mk.injEq,
      Except.toOption_eq_some] at hrun
    obtain ⟨schema, hschema, node, hnode, target, htarget, found, hfound, href, hkey⟩ := hrun
    have hkeeps : ¬ CompileOptions.KeepsFragments
        ⟨10, false, [("http://example.com/s", .bool true)]⟩ capitalBase "" := by
      unfold CompileOptions.KeepsFragments
      decide +kernel
    exact ⟨schema, node, target, found, hschema, hnode, href, htarget, hfound,
      (local_refs_stay _ _).2.2 schema 1 node target found hschema hkeeps hnode hkey href htarget
        hfound⟩

end JsonSchema

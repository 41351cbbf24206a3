import JsonSchema.Proofs.Schema.Result

/-!
# Equal references

Two nodes of one document with the same reference have the same target, unless the URI leads to
two documents or the fragment is the name of two nodes.
-/

namespace JsonSchema

open CompileM

/-! ## Names in the source documents -/

def CompileOptions.base? (options : CompileOptions) (root : Json) (key : String) : Option String :=
  (options.source? root key).bind fun content =>
    (declaredBase key content).toOption.map (documentBase key)

/-- The document with this key is found under the URI. -/
def CompileOptions.GoesBy (options : CompileOptions) (root : Json) (key uri : String) : Prop :=
  uri = key ∨ options.base? root key = some uri

/-- The node is that of a value which declares the name for itself. -/
def CompileOptions.Declares (options : CompileOptions) (root : Json) (node : SchemaNode)
    (name : String) : Prop :=
  ∃ content tokens value, options.source? root node.documentKey = some content ∧
    node.location = locationOf node.documentKey (Pointer.ofTokens tokens) ∧
    content.At tokens value ∧ name ∈ value.anchorNames

/-- Two targets that a reference may have with one base. -/
inductive Clash (options : CompileOptions) (root : Json) (base ref : String) (a b : SchemaNode) :
    Prop where
  | documents {uri fragment : String} (hlocate : Uri.locate base ref = .ok (uri, fragment))
      (hother : isOwnUri base uri = false) (hne : a.documentKey ≠ b.documentKey)
      (ha : options.GoesBy root a.documentKey uri) (hb : options.GoesBy root b.documentKey uri)
  | anchors {uri fragment : String} (hlocate : Uri.locate base ref = .ok (uri, fragment))
      (hanchor : isAnchorFragment fragment = true) (hsame : a.documentKey = b.documentKey)
      (hne : a.id ≠ b.id) (ha : options.Declares root a fragment)
      (hb : options.Declares root b fragment)

namespace Compilation

variable {options : CompileOptions} {root : Json} {c : Compilation} {id s t : NodeId}
  {site : Site} {value : Json} {node : SchemaNode} {key uri ref fragment : String}
  {document : SourceDocument}

theorem Source.base?_eq (h : Source options root key document) :
    options.base? root key = some document.base := by
  obtain ⟨declared, hdeclared, hbase⟩ := h.base
  simp [CompileOptions.base?, h.content, hdeclared, Except.toOption, hbase]

theorem Names.goesBy (h : c.Names uri key) (hc : c.Loaded options root) :
    options.GoesBy root key uri := by
  obtain ⟨document, hmem, huri⟩ := h
  rcases huri with rfl | rfl
  · exact .inl rfl
  · exact .inr (hc.sources _ _ hmem).base?_eq

theorem Built.declares {name : String} (h : c.Built id site value node)
    (hc : c.Loaded options root) (hname : name ∈ value.anchorNames) :
    options.Declares root node name := by
  obtain ⟨document, tokens, hdocument, hpointer, hat⟩ := h.nodeOf.stands
  have hkey := h.documentKey hc
  refine ⟨document.content, tokens, value, ?_, ?_, hat, hname⟩
  · rw [hkey]
    exact (hc.source hdocument).content
  · rw [hkey, h.location, Site.location, hpointer]

namespace Finished

theorem node_of_pointsTo (h : Finished options root c) (hdocument : (key, document) ∈ c.documents)
    (hpoints : c.PointsTo key fragment id) : ∃ node, c.freeze.node? id = some node ∧
      node.id = id ∧ node.documentKey = key ∧
      (isAnchorFragment fragment = true → options.Declares root node fragment) := by
  have hloaded := h.sound.loaded
  unfold PointsTo at hpoints
  split at hpoints
  case isTrue =>
    obtain ⟨site, value, node, hbuilt, hkey, hname⟩ := h.sound.anchors _ hpoints
    exact ⟨_, h.node?_of_built hbuilt, hbuilt.index,
      (hbuilt.documentKey hloaded).trans hkey, fun _ => hbuilt.declares hloaded hname⟩
  case isFalse hanchor =>
    obtain ⟨tokens, -, hlocated⟩ := hpoints
    obtain ⟨site, value, node, hbuilt, hkey, -⟩ := h.built_of_located hdocument hlocated
    exact ⟨_, h.node?_of_built hbuilt, hbuilt.index,
      (hbuilt.documentKey hloaded).trans hkey, fun h => absurd h hanchor⟩

theorem pointsTo_unique (h : Finished options root c) (hs : c.PointsTo key fragment s)
    (ht : c.PointsTo key fragment t) (hpointer : isAnchorFragment fragment = false) : s = t := by
  rw [PointsTo, hpointer, if_neg Bool.false_ne_true] at hs ht
  obtain ⟨tokens, hsplit, hlocated⟩ := hs
  obtain ⟨tokens', hsplit', hlocated'⟩ := ht
  rw [hsplit] at hsplit'
  cases hsplit'
  exact hlocated.unique h.sound.aligned hlocated'

/-- Two answers to one reference are the same node, or they clash. -/
theorem answers_agree (h : Finished options root c)
    (hdocument : Members.get? c.documents key = some document)
    (hs : c.Answers key ref s) (ht : c.Answers key ref t) :
    s = t ∨ ∃ x y, c.freeze.node? s = some x ∧ c.freeze.node? t = some y ∧
      Clash options root document.base ref x y := by
  obtain ⟨uri, fragment, target, hlocate, hmeans, hpoints⟩ := hs
  obtain ⟨uri', fragment', target', hlocate', hmeans', hpoints'⟩ := ht
  rw [hlocate] at hlocate'
  cases hlocate'
  obtain ⟨found, hfound⟩ := hmeans.taken h.sound.loaded hdocument
  obtain ⟨found', hfound'⟩ := hmeans'.taken h.sound.loaded hdocument
  obtain ⟨x, hx, hxid, hxkey, hxname⟩ := h.node_of_pointsTo (Members.mem_of_get? hfound) hpoints
  obtain ⟨y, hy, hyid, hykey, hyname⟩ := h.node_of_pointsTo (Members.mem_of_get? hfound') hpoints'
  have hbase := baseOf_eq hdocument
  rw [hbase] at hlocate
  by_cases hkeys : target = target'
  -- In one document, only a name may stand for two nodes.
  · subst hkeys
    by_cases hsame : s = t
    · exact .inl hsame
    cases hanchor : isAnchorFragment fragment with
    | false => exact .inl (h.pointsTo_unique hpoints hpoints' hanchor)
    | true =>
      refine .inr ⟨x, y, hx, hy, ?_⟩
      exact .anchors hlocate hanchor (hxkey.trans hykey.symm) (hxid ▸ hyid ▸ hsame)
        (hxname hanchor) (hyname hanchor)
  -- With two documents, the URI is not the base of their own, so it was looked up.
  · refine .inr ⟨x, y, hx, hy, ?_⟩
    rw [Means, hbase] at hmeans hmeans'
    cases hown : isOwnUri document.base uri with
    | true =>
      rw [hown, if_pos rfl] at hmeans hmeans'
      exact absurd (hmeans.trans hmeans'.symm) hkeys
    | false =>
      rw [hown, if_neg Bool.false_ne_true] at hmeans hmeans'
      have hne : x.documentKey ≠ y.documentKey := by rwa [hxkey, hykey]
      exact .documents hlocate hown hne (hxkey ▸ hmeans.goesBy h.sound.loaded)
        (hykey ▸ hmeans'.goesBy h.sound.loaded)

end Finished

end Compilation

section

open Compilation

variable {options : CompileOptions} {root : Json} {schema : CompiledSchema}

/--
Nodes of one document with the same reference have the same target, unless the two targets stand
in different documents that both go by the URI of the reference, or in one document where both
declare its fragment as their name.
-/
theorem equal_refs_agree (h : (runCompile options root).result = .ok schema) {m n : NodeId}
    {a b : SchemaNode} (ha : schema.node? m = some a) (hb : schema.node? n = some b)
    (hkey : a.documentKey = b.documentKey) (href : a.ref = b.ref) :
    a.refTarget = b.refTarget ∨
      ∃ ref base s t x y, a.ref = some ref ∧ options.base? root a.documentKey = some base ∧
        a.refTarget = some s ∧ b.refTarget = some t ∧
        schema.node? s = some x ∧ schema.node? t = some y ∧ Clash options root base ref x y := by
  obtain ⟨c, hc, rfl⟩ := finished_of_result h
  obtain ⟨site, value, node, hbuilt, rfl⟩ := hc.built_of_node? ha
  obtain ⟨site', value', node', hbuilt', rfl⟩ := hc.built_of_node? hb
  replace hkey : site.key = site'.key :=
    (hbuilt.documentKey hc.sound.loaded).symm.trans
      (hkey.trans (hbuilt'.documentKey hc.sound.loaded))
  cases hnone : node.ref with
  | none =>
    refine .inl ?_
    rw [hc.lookup_of_none hbuilt hnone, hc.lookup_of_none hbuilt' (href ▸ hnone)]
  | some ref =>
    obtain ⟨s, hs, hanswers⟩ := hc.lookup_of_ref hbuilt hnone
    obtain ⟨t, ht, hanswers'⟩ := hc.lookup_of_ref hbuilt' (href ▸ hnone)
    obtain ⟨document, hdocument, -⟩ := hbuilt.declaration
    rcases hc.answers_agree hdocument hanswers (hkey ▸ hanswers') with rfl | ⟨x, y, hx, hy, hclash⟩
    · exact .inl (hs.trans ht.symm)
    · refine .inr ⟨ref, document.base, s, t, x, y, rfl, ?_, hs, ht, hx, hy, hclash⟩
      have hsource := hc.sound.loaded.source hdocument
      exact (congrArg _ (hbuilt.documentKey hc.sound.loaded)).trans hsource.base?_eq

/-- Two documents go by one URI: the key of one of them is the identifier of the other. -/
def sharedUri : CompileOptions where
  maxDepth := 10
  strict := false
  registry := [
    ("http://x/a", .obj [("$id", .str "http://x/b"), ("type", .str "string")]),
    ("http://x/b", .bool true)]

def sharedUriRoot : Json :=
  .obj [("allOf", .arr [
    .obj [("$ref", .str "http://x/b")],
    .obj [("$ref", .str "http://x/a")],
    .obj [("$ref", .str "http://x/b")]])]

/-- The first and the last reference are equal, and the one between them parts their targets. -/
theorem shared_uri_clashes : ∃ schema a b, (runCompile sharedUri sharedUriRoot).result = .ok schema ∧
    schema.node? 1 = some a ∧ schema.node? 3 = some b ∧ a.documentKey = b.documentKey ∧
    a.ref = b.ref ∧ a.refTarget ≠ b.refTarget ∧
    ∃ ref base x y, Clash sharedUri sharedUriRoot base ref x y := by
  have hrun : (runCompile sharedUri sharedUriRoot).result.toOption.bind (fun schema =>
      (schema.node? 1).bind fun a => (schema.node? 3).map fun b =>
        ((a.documentKey, a.ref, a.refTarget), (b.documentKey, b.ref, b.refTarget))) =
      some (("", some "http://x/b", some 4), ("", some "http://x/b", some 5)) := by decide +kernel
  simp only [Option.bind_eq_some_iff, Option.map_eq_some_iff, Prod.mk.injEq,
    Except.toOption_eq_some] at hrun
  obtain ⟨schema, hschema, a, ha, b, hb, ⟨hkey, href, htarget⟩, hkey', href', htarget'⟩ := hrun
  have hkeys := hkey.trans hkey'.symm
  have hrefs := href.trans href'.symm
  have hne : a.refTarget ≠ b.refTarget := by
    rw [htarget, htarget']
    decide
  refine ⟨schema, a, b, hschema, ha, hb, hkeys, hrefs, hne, ?_⟩
  obtain ⟨ref, base, s, t, x, y, -, -, -, -, -, -, hclash⟩ :=
    (equal_refs_agree hschema ha hb hkeys hrefs).resolve_left hne
  exact ⟨ref, base, x, y, hclash⟩

end

end JsonSchema

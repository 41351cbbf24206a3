import JsonSchema.Proofs.Schema.Sound

/-!
# The compiled schema

What a compilation that succeeds leaves: every node tells what its schema object tells, and every
reference has its answer.
-/

namespace JsonSchema

open CompileM

/-- The key of the document that a node stands in; no key holds a hash mark. -/
def SchemaNode.documentKey (node : SchemaNode) : String :=
  String.ofList (Uri.cutAt '#' node.location.toList).1

/-- The node stands at the location of this value in its document. -/
def CompileOptions.Origin (options : CompileOptions) (root : Json) (node : SchemaNode)
    (value : Json) : Prop :=
  ∃ content tokens, options.source? root node.documentKey = some content ∧
    node.location = locationOf node.documentKey (Pointer.ofTokens tokens) ∧ content.At tokens value

namespace Compilation

variable {options : CompileOptions} {root : Json} {c : Compilation} {id target : NodeId}
  {site : Site} {value : Json} {node : SchemaNode} {ref : String}

theorem getElem?_filterMap {list : List (Option SchemaNode)} (h : ∀ a ∈ list, a.isSome = true)
    (i : Nat) : (list.filterMap fun a => a)[i]? = list[i]?.join := by
  induction list generalizing i with
  | nil => rfl
  | cons a rest ih =>
    rw [List.forall_mem_cons] at h
    obtain ⟨a, rfl⟩ := Option.isSome_iff_exists.mp h.1
    simp only [List.filterMap_cons]
    cases i with
    | zero => rfl
    | succ i => simpa using ih h.2 i

theorem Built.hash (h : c.Built id site value node) (hc : c.Loaded options root) :
    '#' ∉ site.key.toList := by
  obtain ⟨document, hdocument, -⟩ := h.declaration
  exact (hc.source hdocument).hash

theorem Built.location (h : c.Built id site value node) : node.location = site.location := by
  have hreading := h.reading c (Extends.refl c)
  cases value with
  | bool b => rw [show node = _ from hreading]
  | obj schema => exact SchemaReading.location hreading
  | _ => exact hreading.elim

theorem Built.documentKey (h : c.Built id site value node) (hc : c.Loaded options root) :
    node.documentKey = site.key := by
  rw [SchemaNode.documentKey, h.location, Site.location, locationOf, String.toList_append,
    String.toList_append, List.append_assoc]
  have hcut : Uri.cutAt '#' (site.key.toList ++ '#' :: site.pointer.toList) =
      (site.key.toList, site.pointer.toList) := Uri.cutAt_append (h.hash hc)
  exact (congrArg (fun cut => String.ofList cut.1) hcut).trans String.ofList_toList

theorem Built.origin (h : c.Built id site value node) (hc : c.Loaded options root) :
    options.Origin root node value := by
  obtain ⟨document, tokens, hdocument, hpointer, hat⟩ := h.nodeOf.stands
  have hsource := hc.source hdocument
  refine ⟨document.content, tokens, ?_, ?_, hat⟩
  · rw [h.documentKey hc, hsource.content]
  · rw [h.location, h.documentKey hc, ← hpointer]
    rfl

theorem Built.located_iff {key pointer : String} (h : c.Built id site value node)
    (hc : c.Loaded options root) (hkey : '#' ∉ key.toList) :
    c.Located key pointer id ↔ key = site.key ∧ pointer = site.pointer := by
  constructor
  · intro hlocated
    have hsame := h.nodeOf.located
    rw [Located, hlocated, Option.some.injEq] at hsame
    exact locationOf_inj hkey (h.hash hc) hsame
  · rintro ⟨rfl, rfl⟩
    exact h.nodeOf.located

theorem Built.unique {site' : Site} {value' : Json} {node' : SchemaNode}
    (h : c.Built id site value node) (h' : c.Built id site' value' node') : node = node' := by
  have hplaced := h'.placed
  rw [h.placed] at hplaced
  exact Option.some.inj (Option.some.inj hplaced)

theorem stands_unique {key pointer : String} {value' : Json} {document : SourceDocument}
    (hdocument : Members.get? c.documents key = some document)
    (hwell : document.content.isWellFormed = true) (h : c.Stands key pointer value)
    (h' : c.Stands key pointer value') : value = value' := by
  obtain ⟨found, tokens, hfound, rfl, hat⟩ := h
  obtain ⟨found', tokens', hfound', hpointer, hat'⟩ := h'
  obtain rfl := Option.some.inj (hdocument.symm.trans hfound)
  obtain rfl := Option.some.inj (hdocument.symm.trans hfound')
  obtain rfl := Pointer.ofTokens_injective hpointer
  exact hat.unique hwell hat'

theorem Sound.built_of_nodeOf {current : List PendingRef} {key pointer : String}
    {document : SourceDocument} (h : Sound options root current c)
    (hdocument : Members.get? c.documents key = some document)
    (hwell : document.content.isWellFormed = true) (hnode : c.NodeOf key pointer value id) :
    ∃ site node, c.Built id site value node ∧ Traced options root site ∧
      (∀ name ∈ value.anchorNames, ((key, name), id) ∈ c.anchors) ∧
      site.key = key ∧ site.pointer = pointer := by
  have hid := hnode.located.lt
  rw [h.aligned.size] at hid
  obtain ⟨site, found, node, hbuilt, htraced, -, hnames⟩ := h.built id hid
  have hhash := (h.loaded.source hdocument).hash
  obtain ⟨rfl, rfl⟩ := (hbuilt.located_iff h.loaded hhash).mp hnode.located
  obtain rfl := stands_unique hdocument hwell hnode.stands hbuilt.nodeOf.stands
  exact ⟨site, node, hbuilt, htraced, hnames, rfl, rfl⟩

theorem Loaded.root_content (h : c.Loaded options root) {document : SourceDocument}
    (hdocument : Members.get? c.documents "" = some document) : document.content = root := by
  have hcontent := (h.source hdocument).content
  rw [CompileOptions.source?, if_pos rfl, Option.some.injEq] at hcontent
  exact hcontent.symm

/-- Every reference has its answer. -/
structure Finished (options : CompileOptions) (root : Json) (c : Compilation) : Prop where
  sound : Sound options root [] c
  pending : c.pending = []
  root : c.Located "" "" 0
  settled : c.Settled options

namespace Finished

theorem root_document (h : Finished options root c) : ∃ document,
    Members.get? c.documents "" = some document ∧ document.content = root := by
  obtain ⟨site, value, node, hbuilt, -⟩ := h.sound.built 0 (h.sound.aligned.size ▸ h.root.lt)
  obtain ⟨hkey, -⟩ := (hbuilt.located_iff h.sound.loaded (by simp)).mp h.root
  obtain ⟨document, hdocument, -⟩ := hbuilt.declaration
  rw [← hkey] at hdocument
  exact ⟨document, hdocument, h.sound.loaded.root_content hdocument⟩

theorem lookup (h : Finished options root c) (hmem : (id, target) ∈ c.targets) :
    c.targets.lookup id = some target :=
  lookup_of_mem (List.nodup_append.mp h.sound.once).1 hmem

theorem lookup_of_ref (h : Finished options root c) (hbuilt : c.Built id site value node)
    (href : node.ref = some ref) :
    ∃ target, c.targets.lookup id = some target ∧ c.Answers site.key ref target := by
  obtain ⟨site', value', node', hbuilt', -, hanswered, -⟩ := h.sound.built id hbuilt.lt
  have hnode := hbuilt'.unique hbuilt
  obtain ⟨hkey, -⟩ := (hbuilt.located_iff h.sound.loaded (hbuilt'.hash h.sound.loaded)).mp
    hbuilt'.nodeOf.located
  rcases hanswered ref (hnode ▸ href) with hwaits | ⟨target, hmem, hanswers⟩
  · rw [h.pending] at hwaits
    simp at hwaits
  · exact ⟨target, h.lookup hmem, hkey ▸ hanswers⟩

theorem lookup_of_none (h : Finished options root c) (hbuilt : c.Built id site value node)
    (href : node.ref = none) : c.targets.lookup id = none := by
  rw [lookup_eq_none_iff]
  intro hmem
  obtain ⟨entry, hentry, rfl⟩ := List.mem_map.mp hmem
  obtain ⟨ref, key, site', value', node', hbuilt', -, href'⟩ := h.sound.answered entry hentry
  rw [← hbuilt.unique hbuilt', href] at href'
  cases href'

theorem nodes_isSome (h : Finished options root c) : ∀ a ∈ c.nodes.toList, a.isSome = true := by
  intro a hmem
  obtain ⟨id, hid, rfl⟩ := List.mem_iff_getElem.mp hmem
  rw [Array.length_toList] at hid
  obtain ⟨site, value, node, hbuilt, -⟩ := h.sound.built id hid
  obtain ⟨_, hplaced⟩ := Array.getElem?_eq_some_iff.mp hbuilt.placed
  rw [Array.getElem_toList, hplaced]
  rfl

theorem node?_freeze (h : Finished options root c) (id : NodeId) :
    c.freeze.node? id = c.nodes[id]?.join.map fun node =>
      { node with refTarget := c.targets.lookup node.id } := by
  have hfilter := getElem?_filterMap h.nodes_isSome id
  rw [← Array.toList_filterMap, Array.getElem?_toList, Array.getElem?_toList] at hfilter
  rw [CompiledSchema.node?, freeze, Array.getElem?_map]
  exact congrArg _ hfilter

theorem node?_of_built (h : Finished options root c) (hbuilt : c.Built id site value node) :
    c.freeze.node? id = some { node with refTarget := c.targets.lookup id } := by
  rw [h.node?_freeze, hbuilt.placed, ← hbuilt.index]
  rfl

theorem built_of_node? {found : SchemaNode} (h : Finished options root c)
    (hfound : c.freeze.node? id = some found) : ∃ site value node,
      c.Built id site value node ∧ found = { node with refTarget := c.targets.lookup id } := by
  have hid : id < c.nodes.size := by
    rw [h.node?_freeze] at hfound
    by_contra hge
    rw [Array.getElem?_eq_none (Nat.not_lt.mp hge)] at hfound
    cases hfound
  obtain ⟨site, value, node, hbuilt, -⟩ := h.sound.built id hid
  rw [h.node?_of_built hbuilt] at hfound
  exact ⟨site, value, node, hbuilt, (Option.some.inj hfound).symm⟩

theorem built_of_located {key pointer : String} {document : SourceDocument}
    (h : Finished options root c) (hdocument : (key, document) ∈ c.documents)
    (hlocated : c.Located key pointer id) : ∃ site value node, c.Built id site value node ∧
      site.key = key ∧ site.pointer = pointer := by
  have hid := hlocated.lt
  rw [h.sound.aligned.size] at hid
  obtain ⟨site, value, node, hbuilt, -⟩ := h.sound.built id hid
  obtain ⟨hkey, hpointer⟩ := (hbuilt.located_iff h.sound.loaded
    (h.sound.loaded.sources _ _ hdocument).hash).mp hlocated
  exact ⟨site, value, node, hbuilt, hkey.symm, hpointer.symm⟩

end Finished

end Compilation

/-! ## Outcomes -/

section

open Compilation

variable {options : CompileOptions} {root : Json} {schema : CompiledSchema}

theorem runs_of_result {outcome : Except CompileFault CompiledSchema}
    (h : (runCompile options root).result = outcome) :
    ∃ c, Runs (compileDocument options root) {} outcome c :=
  ⟨_, Prod.ext h rfl⟩

theorem finished_of_result (h : (runCompile options root).result = .ok schema) :
    ∃ c : Compilation, Finished options root c ∧ schema = c.freeze := by
  obtain ⟨c, hrun⟩ := runs_of_result h
  obtain ⟨hsound, hpending, hschema, hroot, hsettled⟩ := compileDocument_sound hrun
  exact ⟨c, ⟨hsound, hpending, hroot, hsettled⟩, hschema⟩

end

end JsonSchema

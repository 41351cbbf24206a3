import JsonSchema.Proofs.Json.Members
import JsonSchema.Proofs.Yaml.Unmerged

/-!
# The source map of a document

The JSON value of a document without merge keys is built like its nodes, so its source map has the
pointers of its values and the places of their nodes.
-/

namespace JsonSchema

namespace Yaml

open Relation (TransGen)

variable {g : YamlGraph} {c : Construction} {id root : YamlId} {fuel : Nat} {around : List YamlId}
  {pointer : List String} {json : Json}

/-! ## From values to JSON -/

/-- A value of the document is built like the node that it was read from. -/
def BuiltLike (g : YamlGraph) (json : Json) (id : YamlId) : Prop :=
  g.Mirrors ReadFrom json id ∧ json.isWellFormed = true

theorem flat_of_json? {value : ScalarValue} (h : value.json? = some json) :
    json.IsFlat ∧ json.isWellFormed = true := by
  unfold ScalarValue.json? at h
  split at h <;> cases h <;> exact ⟨trivial, rfl⟩

theorem toJson_scalar {value : ScalarValue} (hvalue : c.value? id = some (.scalar value))
    (h : c.toJson fuel around pointer id = .ok json) : value.json? = some json := by
  cases fuel with
  | zero => simp [Construction.toJson] at h
  | succ fuel =>
    rw [Construction.toJson, hvalue, Option.getD_some] at h
    cases value with
    | float x => cases x <;> simp_all [ScalarValue.json?]
    | _ => simp_all [ScalarValue.json?]

theorem itemsToJson_ok {items : List YamlId} {index : Nat} {values : List Json}
    (h : c.itemsToJson fuel around pointer index items = .ok values) :
    List.Forall₂ (fun value item => ∃ pointer, c.toJson fuel around pointer item = .ok value)
      values items := by
  induction items generalizing index values with
  | nil =>
    rw [Construction.itemsToJson] at h
    cases h
    exact .nil
  | cons item rest ih =>
    rw [Construction.itemsToJson] at h
    obtain ⟨first, hfirst, h⟩ := Except.bind_eq_ok.mp h
    obtain ⟨others, hothers, h⟩ := Except.bind_eq_ok.mp h
    obtain rfl := Except.pure_eq_ok.mp h
    exact .cons ⟨_, hfirst⟩ (ih hothers)

theorem membersToJson_ok {members : Members YamlId} {values : Members Json}
    (h : c.membersToJson fuel around pointer members = .ok values) :
    List.Forall₂ (fun value member => value.1 = member.1 ∧
      ∃ pointer, c.toJson fuel around pointer member.2 = .ok value.2) values members := by
  induction members generalizing values with
  | nil =>
    rw [Construction.membersToJson] at h
    cases h
    exact .nil
  | cons member rest ih =>
    rw [Construction.membersToJson] at h
    obtain ⟨first, hfirst, h⟩ := Except.bind_eq_ok.mp h
    obtain ⟨others, hothers, h⟩ := Except.bind_eq_ok.mp h
    obtain rfl := Except.pure_eq_ok.mp h
    exact .cons ⟨rfl, _, hfirst⟩ (ih hothers)

theorem builtLike_of_toJson (hc : HoldsAll g c) (hid : (c.value? id).isSome = true)
    (h : c.toJson fuel around pointer id = .ok json) : BuiltLike g json id := by
  induction fuel generalizing around pointer id json with
  | zero => simp [Construction.toJson] at h
  | succ fuel ih =>
    obtain ⟨value, hvalue⟩ := Option.isSome_iff_exists.mp hid
    obtain ⟨hholds, hinner⟩ := hc id value hvalue
    cases hholds with
    | @scalar found hfound =>
      have hjson := toJson_scalar hvalue h
      obtain ⟨text, -, hcontent, -⟩ := YamlGraph.scalar?_eq_some hfound
      obtain ⟨hflat, hwell⟩ := flat_of_json? hjson
      exact ⟨.scalar hcontent hflat ⟨found, hfound, hjson⟩, hwell⟩
    | @sequence items hcontent =>
      rw [Construction.toJson, hvalue, Option.getD_some] at h
      dsimp only at h
      split at h
      case isTrue => cases h
      case isFalse =>
        obtain ⟨values, hvalues, rfl⟩ := Except.map_eq_ok.mp h
        have hread := itemsToJson_ok hvalues
        have hbuilt : ∀ (index : Nat) value item, values[index]? = some value →
            items[index]? = some item → BuiltLike g value item := by
          intro index value item hvalue hitem
          obtain ⟨pointer, heq⟩ := rel_of_getElem? hread hvalue hitem
          have hmem := List.mem_of_getElem? hitem
          exact ih (hinner item (YamlGraph.leads_of_mem_items hcontent hmem)) heq
        refine ⟨.sequence hcontent hread.length_eq fun index value item hvalue hitem =>
          (hbuilt index value item hvalue hitem).1, Json.isWellFormed_arr fun value hvalue => ?_⟩
        obtain ⟨index, hindex⟩ := List.getElem?_of_mem hvalue
        obtain ⟨item, hitem⟩ := exists_getElem?_of_length hread.length_eq hindex
        exact (hbuilt index value item hindex hitem).2
    | @mapping members entries hcontent hnodup hmembers =>
      rw [Construction.toJson, hvalue, Option.getD_some] at h
      dsimp only at h
      split at h
      case isTrue => cases h
      case isFalse =>
        obtain ⟨values, hvalues, rfl⟩ := Except.map_eq_ok.mp h
        have hread := membersToJson_ok hvalues
        have hlength := hread.length_eq
        have hnames : Members.names values = members.names := by
          rw [Members.names, Members.names, ← List.forall₂_eq_eq_eq, List.forall₂_map_left_iff,
            List.forall₂_map_right_iff]
          exact hread.imp fun _ _ h => h.1
        have hbuilt : ∀ (index : Nat) value entry, values[index]? = some value →
            entries[index]? = some entry →
            (g.node entry.1).memberName? = .ok (some value.1) ∧ BuiltLike g value.2 entry.2 := by
          intro index value entry hvalue hentry
          obtain ⟨member, hmember⟩ := exists_getElem?_of_length hlength hvalue
          obtain ⟨hsame, pointer, heq⟩ := rel_of_getElem? hread hvalue hmember
          obtain ⟨hname, hnode⟩ := rel_of_getElem? hmembers hmember hentry
          have hmem := List.mem_of_getElem? hentry
          rw [hsame]
          exact ⟨hname, ih (hinner entry.2 (YamlGraph.leads_of_mem_entries hcontent hmem))
            (hnode ▸ heq)⟩
        refine ⟨.mapping hcontent (hlength.trans hmembers.length_eq)
          (fun index value entry hvalue hentry => (hbuilt index value entry hvalue hentry).1)
          fun index value entry hvalue hentry => (hbuilt index value entry hvalue hentry).2.1,
          Json.isWellFormed_obj (hnames ▸ hnodup) fun name value hvalue => ?_⟩
        obtain ⟨index, hindex⟩ := List.getElem?_of_mem hvalue
        obtain ⟨entry, hentry⟩ :=
          exists_getElem?_of_length (hlength.trans hmembers.length_eq) hindex
        exact (hbuilt index _ entry hindex hentry).2.2

end Yaml

/-! ## Whole texts -/

open Yaml

theorem parseYaml_eq (text : String) : Json.parseYaml text =
    (ComposedDocument.ofText text >>= (·.toJson)).mapError .yaml := by
  rw [Json.parseYaml, Json.parseYamlChars, ← bind_assoc]
  rfl

theorem parseYaml_composed {text : String} {document : ComposedDocument}
    (h : ComposedDocument.ofText text = .ok document) :
    Json.parseYaml text = document.toJson.mapError .yaml := by
  rw [parseYaml_eq, h]
  rfl

/--
The source map of a document agrees with its value. It has the pointers of all values and no
others, each with the place of the node that stands there, and the value has been made from this
node.
-/
theorem source_map_agrees {text : String} {g : YamlGraph} {root : YamlId} {document : Json}
    (hcomposed : ComposedDocument.ofText text = .ok ⟨g, some root⟩) (htags : g.HasUsualTags)
    (hacyclic : ∀ id, ¬ Relation.TransGen g.Leads id id)
    (hdocument : Json.parseYaml text = .ok document) :
    ∃ map, SourceMap.ofText text = .ok map ∧
      (∀ pointer, pointer ∈ map.names ↔
        ∃ tokens value, document.Leads tokens value ∧ pointer = Pointer.ofTokens tokens) ∧
      ∀ tokens value, document.Leads tokens value →
        ∃ node, (∀ other, g.Stands root tokens other ↔ other = node) ∧
          g.Mirrors ReadFrom value node ∧
          map.get? (Pointer.ofTokens tokens) =
            some ⟨some (g.node node).place.line, some (g.node node).place.column⟩ := by
  have hbuilt : BuiltLike g document root := by
    rw [parseYaml_composed hcomposed, Except.mapError_eq_ok] at hdocument
    obtain ⟨c, hc, hjson⟩ := Except.bind_eq_ok.mp hdocument
    obtain ⟨hholds, hroot⟩ := holdsAll_of_ofGraph htags hc
    exact builtLike_of_toJson hholds hroot hjson
  obtain ⟨hmirrors, hwell⟩ := hbuilt
  obtain ⟨map, heq, hpointers, hspots⟩ := hmirrors.located hwell hacyclic
  refine ⟨map, ?_, hpointers, fun tokens value hleads => ?_⟩
  · rw [SourceMap.ofText, hcomposed]
    exact heq
  · obtain ⟨node, hstands, hvalue⟩ := hmirrors.exists_stands hleads
    refine ⟨node, fun other => ⟨hmirrors.unique hwell hstands, ?_⟩, hvalue,
      hspots tokens node hstands⟩
    rintro rfl
    exact hstands

/-- Keys that are no strings, and one list in three places. -/
def sharedList : String := "yes: &a [0x10]\n0x10: \x7b~: *a\x7d\na/b: *a\n"

def sharedListGraph : YamlGraph := ⟨#[
  ⟨Tag.map, ⟨1, 1⟩, .mapping [(1, 2), (4, 5), (7, 2)]⟩,
  ⟨Tag.bool, ⟨1, 1⟩, .scalar "yes"⟩,
  ⟨Tag.seq, ⟨1, 6⟩, .sequence [3]⟩,
  ⟨Tag.int, ⟨1, 10⟩, .scalar "0x10"⟩,
  ⟨Tag.int, ⟨2, 1⟩, .scalar "0x10"⟩,
  ⟨Tag.map, ⟨2, 7⟩, .mapping [(6, 2)]⟩,
  ⟨Tag.null, ⟨2, 8⟩, .scalar "~"⟩,
  ⟨Tag.str, ⟨3, 1⟩, .scalar "a/b"⟩]⟩

theorem sharedList_composed : ComposedDocument.ofText sharedList = .ok ⟨sharedListGraph, some 0⟩ := by
  have hnodes : (ComposedDocument.ofText sharedList).toOption.map
      (fun document => (document.graph.nodes, document.root)) =
      some (sharedListGraph.nodes, some 0) := by decide +kernel
  obtain ⟨⟨⟨nodes⟩, root⟩, hdocument, heq⟩ := Option.map_eq_some_iff.mp hnodes
  obtain ⟨rfl, rfl⟩ := Prod.mk.inj heq
  exact Except.toOption_eq_some.mp hdocument

theorem sharedList_stands : sharedListGraph.Stands 0 ["16", "null", "0"] 3 := by
  have hroot : (sharedListGraph.node 0).content = .mapping [(1, 2), (4, 5), (7, 2)] := rfl
  have hinner : (sharedListGraph.node 5).content = .mapping [(6, 2)] := rfl
  have hlist : (sharedListGraph.node 2).content = .sequence [3] := rfl
  have hindex : [3][0]? = some 3 := rfl
  have hentry : (4, 5) ∈ [(1, 2), (4, 5), (7, 2)] := by decide
  have hnumber : (sharedListGraph.node 4).memberName? = .ok (some "16") := by decide +kernel
  have hnull : (sharedListGraph.node 6).memberName? = .ok (some "null") := by decide +kernel
  exact .member hroot hentry hnumber
    (.member hinner List.mem_cons_self hnull (.item hlist hindex .here))

def sharedListDocument : Json :=
  .obj [("true", .arr [.num (.int 16)]), ("16", .obj [("null", .arr [.num (.int 16)])]),
    ("a/b", .arr [.num (.int 16)])]

theorem sharedList_parsed : Json.parseYaml sharedList = .ok sharedListDocument := by
  have hvalues : (Construction.ofGraph sharedListGraph 0).toOption.map (·.values) = some #[
      some (.mapping [("true", 2), ("16", 5), ("a/b", 2)]), some (.scalar (.bool true)),
      some (.sequence [3]), some (.scalar (.int 16)), some (.scalar (.int 16)),
      some (.mapping [("null", 2)]), some (.scalar .null), some (.scalar (.str "a/b"))] := by
    decide +kernel
  obtain ⟨c, hc, hvalues⟩ := Option.map_eq_some_iff.mp hvalues
  rw [Except.toOption_eq_some] at hc
  have hjson : c.toJson (yamlDepthLimit + 1) [] [] 0 = .ok sharedListDocument := by
    simp [Construction.toJson, Construction.itemsToJson, Construction.membersToJson,
      Construction.value?, hvalues, yamlDepthLimit]
    rfl
  rw [parseYaml_composed sharedList_composed, ComposedDocument.toJson]
  dsimp only
  rw [hc, Except.ok_bind, hjson]
  rfl

/-- The list stands behind two converted keys, and is recorded there where its anchor is. -/
theorem sharedList_located : ∃ document map, Json.parseYaml sharedList = .ok document ∧
    SourceMap.ofText sharedList = .ok map ∧
    (∃ value, document.Leads ["16", "null", "0"] value) ∧
    map.get? "/16/null/0" = some ⟨some 1, some 10⟩ := by
  have hregular : sharedListGraph.Regular 0 := YamlGraph.regular_of_checked
    (fun id => [3, 0, 1, 0, 0, 2, 0, 0].getD id 0) (by decide +kernel) (by decide +kernel)
  have hlist : sharedListDocument.Leads (["16"] ++ ["null"] ++ [natText 0]) (.num (.int 16)) :=
    ((Json.Leads.root.member (.tail _ (.head _))).member (.head _)).item rfl
  obtain ⟨map, hmap, -, hplaces⟩ :=
    source_map_agrees sharedList_composed (by decide +kernel) hregular.acyclic sharedList_parsed
  obtain ⟨node, hstands, -, hplace⟩ := hplaces _ _ hlist
  obtain rfl := (hstands 3).mp sharedList_stands
  have hpointer : Pointer.ofTokens ["16", "null", "0"] = "/16/null/0" := by decide +kernel
  exact ⟨sharedListDocument, map, sharedList_parsed, hmap, ⟨_, hlist⟩, hpointer ▸ hplace⟩

end JsonSchema

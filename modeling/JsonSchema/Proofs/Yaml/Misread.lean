import JsonSchema.Proofs.Yaml.Aliases
import JsonSchema.Proofs.Yaml.Composing
import JsonSchema.Proofs.Yaml.Implied
import JsonSchema.Proofs.Yaml.Located

/-!
# What a YAML text comes to

A text has a JSON value, or its document is at fault, or one of its scalars has a tag that its text
does not fit. Mappings are merged while the values are read, so the graph in between is compared
with the one of the text.
-/

namespace JsonSchema

namespace Yaml

open Construction (NodeText textOf nameOf)

namespace YamlGraph

/-! ## Scalars that are misread -/

/-- The text that a node stands for. A mapping stands for the text of one of the scalars. -/
inductive HasText (g : YamlGraph) (id : YamlId) : NodeText → Prop
  | own {text : String} (hcontent : (g.node id).content = .scalar text) : HasText g id ⟨text, false⟩
  | default {text : String} {other : YamlId} (hkind : (g.node id).kind = .mapping)
      (hcontent : (g.node other).content = .scalar text) : HasText g id ⟨text, true⟩

/-- The node has this value under the tag that it carries in the text. -/
def HasScalar (g : YamlGraph) (id : YamlId) (value : ScalarValue) : Prop :=
  ∃ t tag, g.HasText id t ∧ KnownTag.ofText? (g.node id).tag = some (.scalar tag) ∧
    tag.read t.inMapping (g.node id).place t.text = .ok value

/-- Why a scalar of a document has no value, or no name as a key. -/
inductive Misread (g : YamlGraph) : ScalarFault → Prop
  /-- The tag comes from the form of the text. -/
  | implied {id : YamlId} {text : String} {cause : ScalarFault}
      (hcontent : (g.node id).content = .scalar text) (htag : (g.node id).tag = implicitTag text)
      (hflaw : Unreadable text cause) : Misread g cause
  /-- The tag is written in front of the scalar, and the text is no such value. -/
  | written {id : YamlId} {text : String} {tag : ScalarTag} {cause : ScalarFault}
      (hcontent : (g.node id).content = .scalar text) (hwritten : (g.node id).tag ≠ implicitTag text)
      (htag : KnownTag.ofText? (g.node id).tag = some (.scalar tag))
      (hread : tag.read false (g.node id).place text = .error (.scalar cause)) : Misread g cause
  /-- The tag of a scalar is written in front of a mapping, whose default value is no such value. -/
  | default {id other : YamlId} {text : String} {tag : ScalarTag} {cause : ScalarFault}
      (hkind : (g.node id).kind = .mapping) (hcontent : (g.node other).content = .scalar text)
      (htag : KnownTag.ofText? (g.node id).tag = some (.scalar tag))
      (hread : tag.read true (g.node id).place text = .error (.scalar cause)) : Misread g cause
  /-- A key is an integer with too many digits to be written out. -/
  | longKey {id : YamlId} {n : Int} (hvalue : g.HasScalar id (.int n))
      (hlong : maxIntegerDigits < decimalLength n.natAbs) : Misread g .keyTooLong

/-- The document is at fault, or else one of its scalars is misread. -/
def FailsBy (g : YamlGraph) (fault : YamlFault) : Prop :=
  fault.isOfDocument = true ∨ ∃ cause, fault = .scalar cause ∧ g.Misread cause

variable {G g : YamlGraph} {id : YamlId} {t : NodeText} {tag : ScalarTag} {fault : YamlFault}

theorem failsBy_of_read (htext : G.HasText id t)
    (htag : KnownTag.ofText? (G.node id).tag = some (.scalar tag))
    (hread : tag.read t.inMapping (G.node id).place t.text = .error fault) : G.FailsBy fault := by
  cases fault with
  | malformed | notJson => exact .inl rfl
  | scalar cause =>
    refine .inr ⟨cause, rfl, ?_⟩
    cases htext with
    | default hkind hcontent => exact .default hkind hcontent htag hread
    | @own text hcontent =>
      by_cases himplied : (G.node id).tag = implicitTag text
      · have hends := read_implied false (G.node id).place (himplied ▸ htag)
        rw [hread] at hends
        obtain ⟨_, ⟨rfl⟩, hflaw⟩ := hends.of_error
        exact .implied hcontent himplied hflaw
      · exact .written hcontent himplied htag hread

/-! ## Merging -/

/-- A graph in which mappings may be merged, compared with the one of the text. -/
structure Akin (G g : YamlGraph) : Prop where
  place : ∀ id, (g.node id).place = (G.node id).place
  tag : ∀ id, (g.node id).tag = (G.node id).tag ∨ (g.node id).tag = Tag.str
  kind : ∀ id, (g.node id).kind = (G.node id).kind
  content : ∀ id, (G.node id).kind ≠ .mapping → (g.node id).content = (G.node id).content

namespace Akin

theorem refl (g : YamlGraph) : Akin g g where
  place _ := rfl
  tag _ := .inl rfl
  kind _ := rfl
  content _ _ := rfl

theorem plainKey (h : G.Akin g) (entry : Entry) : G.Akin (g.plainKey entry) where
  place id := by
    rw [node_plainKey, ← h.place]
    split <;> simp
  tag id := by
    rw [node_plainKey]
    split
    · rw [YamlNode.plain_tag]
      split
      · exact .inr rfl
      · exact h.tag id
    · exact h.tag id
  kind id := by
    rw [node_plainKey, ← h.kind]
    split <;> simp [YamlNode.kind]
  content id hkind := by
    rw [node_plainKey, ← h.content id hkind]
    split <;> simp

theorem setContent (h : G.Akin g) (hid : (G.node id).kind = .mapping) (entries : List Entry) :
    G.Akin (g.setContent id (.mapping entries)) := by
  have hlt : id < g.nodes.size := lt_of_kind (by simp [h.kind, hid])
  constructor
  case place =>
    intro other
    rw [node_setContent hlt]
    split
    case isTrue heq => exact heq ▸ h.place id
    case isFalse => exact h.place other
  case tag => exact fun other => tag_setContent hlt ▸ h.tag other
  case kind =>
    intro other
    rw [node_setContent hlt]
    split
    case isTrue heq => exact heq ▸ hid.symm
    case isFalse => exact h.kind other
  case content =>
    intro other hkind
    rw [node_setContent hlt, if_neg fun heq : other = id => hkind (heq ▸ hid)]
    exact h.content other hkind

end Akin

def MergesAkin (G : YamlGraph) (merge : YamlGraph → YamlId → Except YamlFault YamlGraph) : Prop :=
  ∀ g id, G.Akin g → (G.node id).kind = .mapping →
    Except.Ends G.Akin (·.isOfDocument = true) (merge g id)

section

variable {merge : YamlGraph → YamlId → Except YamlFault YamlGraph}

theorem ofItems_akin (hmerge : G.MergesAkin merge) (h : G.Akin g) (ids : List YamlId) :
    Except.Ends (G.Akin ·.graph) (·.isOfDocument = true) (Merge.ofItems merge g ids) := by
  induction ids generalizing g with
  | nil => exact .ok h
  | cons id rest ih =>
    refine .ite_of (fun _ => .error rfl) fun hkind => ?_
    have hid : (G.node id).kind = .mapping := by simpa [h.kind] using hkind
    refine (hmerge g id h hid).bind fun g' h' => (ih h').bind fun later hlater => ?_
    exact .ok hlater

theorem ofValue_akin (hmerge : G.MergesAkin merge) (h : G.Akin g) (id : YamlId) :
    Except.Ends (G.Akin ·.graph) (·.isOfDocument = true) (Merge.ofValue merge g id) := by
  unfold Merge.ofValue
  dsimp only
  split
  case h_1 entries hcontent =>
    have hid : (G.node id).kind = .mapping := (h.kind id).symm.trans (congrArg Content.kind hcontent)
    exact (hmerge g id h hid).bind fun g' h' => .ok h'
  case h_2 items hcontent => exact ofItems_akin hmerge h items
  case h_3 => exact .error rfl

theorem ofEntries_akin (hmerge : G.MergesAkin merge) (hid : (G.node id).kind = .mapping)
    (h : G.Akin g) (merged kept entries : List Entry) :
    Except.Ends G.Akin (·.isOfDocument = true) (Merge.ofEntries merge id merged kept g entries) := by
  induction entries generalizing g merged kept with
  | nil => exact .ok (h.setContent hid _)
  | cons entry rest ih =>
    refine .ite ?_ (ih (h.plainKey entry) _ _)
    refine (ofValue_akin hmerge (h.setContent hid _) entry.2).bind fun found hfound => ?_
    exact .ite (.ok (hfound.setContent hid _)) (ih hfound _ _)

end

theorem ofMapping_akin (depth : Nat) : G.MergesAkin (Merge.ofMapping depth) := by
  induction depth with
  | zero => exact fun _ _ h _ => .ok h
  | succ depth ih => exact fun _ _ h hid => ofEntries_akin ih hid h _ _ _

/-! ## Texts of nodes -/

theorem textOf_ends (h : G.Akin g) (fuel : Nat) (id : YamlId) :
    Except.Ends (G.HasText id) (·.isOfDocument = true) (textOf g fuel id) := by
  induction fuel generalizing id with
  | zero => exact .error rfl
  | succ fuel ih =>
    unfold textOf
    dsimp only
    split
    case h_1 text hcontent =>
      have hkind : (G.node id).kind = .scalar :=
        (h.kind id).symm.trans (congrArg Content.kind hcontent)
      exact .ok (.own ((h.content id (by simp [hkind])).symm.trans hcontent))
    case h_2 entries hcontent =>
      have hkind : (G.node id).kind = .mapping :=
        (h.kind id).symm.trans (congrArg Content.kind hcontent)
      split
      · refine (ih _).map fun t ht => ?_
        cases ht with
        | own htext => exact .default hkind htext
        | default _ htext => exact .default hkind htext
      · exact .error rfl
    case h_3 => exact .error rfl

end YamlGraph

/-! ## Values -/

open YamlGraph (Akin)

/-- What is known of the value of a node: a scalar has been read, and a mapping has no name twice. -/
def YamlValue.FitsNode (value : YamlValue) (g : YamlGraph) (id : YamlId) : Prop :=
  match value with
  | .scalar (.str _) => True
  | .scalar value => g.HasScalar id value
  | .mapping members => members.names.Nodup
  | _ => True

theorem YamlGraph.HasScalar.fitsNode {g : YamlGraph} {id : YamlId} {value : ScalarValue}
    (h : g.HasScalar id value) : (YamlValue.scalar value).FitsNode g id := by
  cases value with
  | str => trivial
  | _ => exact h

structure Fitting (G : YamlGraph) (c : Construction) : Prop where
  graph : G.Akin c.graph
  values : ∀ id value, c.value? id = some value → value.FitsNode G id

variable {G : YamlGraph} {c : Construction} {id : YamlId} {value : YamlValue}

namespace Fitting

theorem start (g : YamlGraph) : Fitting g (Construction.start g) where
  graph := .refl g
  values id value h := by
    rw [Construction.start, Construction.value?, Array.getElem?_replicate] at h
    split at h <;> cases h

theorem requeue (h : Fitting G c) (unread : List Unread) : Fitting G { c with unread } :=
  ⟨h.graph, h.values⟩

theorem setValue (h : Fitting G c) (hvalue : value.FitsNode G id) :
    Fitting G (c.setValue id value) where
  graph := h.graph
  values other found hfound := by
    by_cases hlt : id < c.values.size
    · rw [Construction.value?_setValue hlt] at hfound
      split at hfound
      case isTrue heq =>
        obtain rfl := Option.some.inj hfound
        exact heq ▸ hvalue
      case isFalse => exact h.values other found hfound
    · have hsame : c.setValue id value = c := by
        rw [Construction.setValue, Array.setIfInBounds_eq_of_size_le (Nat.not_lt.mp hlt)]
      exact h.values other found (hsame ▸ hfound)

theorem nodup_names {members : Members YamlId} (hc : Fitting G c)
    (h : c.found id = .mapping members) : members.names.Nodup := by
  unfold Construction.found at h
  cases hvalue : c.value? id with
  | none =>
    rw [hvalue] at h
    cases h
  | some value =>
    rw [hvalue, Option.getD_some] at h
    exact hc.values id _ (h ▸ hvalue)

end Fitting

namespace Construction

/-- A scalar is read under its own tag, or as the string that a default key is. -/
theorem read_ends {t : NodeText} {tag : ScalarTag} (h : Fitting G c) (htext : G.HasText id t)
    (htag : KnownTag.ofText? (c.graph.node id).tag = some (.scalar tag)) :
    Except.Ends (fun value => (YamlValue.scalar value).FitsNode G id) G.FailsBy
      (tag.read t.inMapping (c.graph.node id).place t.text) := by
  rw [h.graph.place]
  rcases h.graph.tag id with hsame | hstr
  · rw [hsame] at htag
    cases hread : tag.read t.inMapping (G.node id).place t.text with
    | ok value => exact .ok (YamlGraph.HasScalar.fitsNode ⟨t, tag, htext, htag, hread⟩)
    | error fault => exact .error (YamlGraph.failsBy_of_read htext htag hread)
  · have hknown : KnownTag.ofText? Tag.str = some (.scalar .str) := by decide
    rw [hstr, hknown] at htag
    cases htag
    exact .ok trivial

theorem valueOf_ends (h : Fitting G c) (id : YamlId) :
    Except.Ends (fun out => out.1.FitsNode G id ∧ Fitting G out.2) G.FailsBy (c.valueOf id) := by
  unfold valueOf
  split
  case h_1 value hvalue => exact .ok ⟨h.values id value hvalue, h⟩
  case h_2 =>
    dsimp only
    split
    case h_1 => exact .error (.inl rfl)
    case h_2 tag htag =>
      refine ((YamlGraph.textOf_ends h.graph _ id).mono fun _ => .inl).bind fun t ht => ?_
      refine (read_ends h ht htag).bind fun value hvalue => ?_
      exact .ok ⟨hvalue, h.setValue hvalue⟩
    case h_3 tag htag =>
      have hempty : tag.emptyValue.FitsNode G id := by
        cases tag with
        | mapping => exact List.nodup_nil
        | _ => trivial
      exact .ok ⟨hempty, (h.setValue hempty).requeue _⟩

theorem visit_ends (h : Fitting G c) (ids : List YamlId) :
    Except.Ends (Fitting G) G.FailsBy (c.visit ids) :=
  .foldlM h fun _ hc id _ => (valueOf_ends hc id).bind fun _ hout => .ok hout.2

/-! ### Mappings -/

theorem nameOf_ends (h : value.FitsNode G id) :
    Except.Ends (fun _ => True) G.FailsBy (nameOf value) := by
  cases value with
  | scalar value =>
    cases value with
    | int n =>
      refine .ite_of (fun hlong => .error (.inr ⟨_, rfl, ?_⟩)) fun _ => .ok trivial
      exact .longKey h hlong
    | null | bool | float | str => exact .ok trivial
    | bytes | date | dateTime => exact .error (.inl rfl)
  | _ => exact .error (.inl rfl)

def Reading.Fits (G : YamlGraph) (r : Reading) : Prop :=
  Fitting G r.construction ∧ r.members.names.Nodup

theorem readEntry_ends {r : Reading} (h : r.Fits G) (entry : Entry) (merged : Bool) :
    Except.Ends (Reading.Fits G) G.FailsBy (readEntry r entry merged) := by
  refine (valueOf_ends h.1 entry.1).bind fun ⟨key, c⟩ ⟨hkey, hc⟩ => ?_
  refine (nameOf_ends hkey).bind fun name _ => .ite (.error (.inl rfl)) ?_
  refine (valueOf_ends hc entry.2).bind fun ⟨_, c'⟩ ⟨_, hc'⟩ => ?_
  exact .ok ⟨hc', Members.nodup_put h.2⟩

theorem membersOf_ends (h : Fitting G c) (id : YamlId) :
    Except.Ends (fun out => out.1.names.Nodup ∧ Fitting G out.2) G.FailsBy (c.membersOf id) := by
  refine .ite_of (fun _ => .error (.inl rfl)) fun hkind => ?_
  have hid : (G.node id).kind = .mapping := by simpa [h.graph.kind] using hkind
  have hmerge : Except.Ends G.Akin G.FailsBy (c.graph.mergeKeys id) :=
    (YamlGraph.ofMapping_akin _ _ id h.graph hid).mono fun _ => .inl
  refine hmerge.bind fun g hg => ?_
  have hstart : Reading.Fits G ⟨{ c with graph := g }, [], []⟩ := ⟨⟨hg, h.values⟩, List.nodup_nil⟩
  refine Except.Ends.bind (.foldlM hstart fun r hr entry _ => ?_) fun r hr => .ok ⟨hr.2, hr.1⟩
  exact readEntry_ends hr _ _

/-! ### Collections -/

theorem itemsOf_ends (c : Construction) (id : YamlId) (what : ExpectedNode) :
    Except.Ends (fun _ => True) G.FailsBy (c.itemsOf id what) := by
  unfold itemsOf
  dsimp only
  split
  · exact .ok trivial
  · exact .error (.inl rfl)

theorem readPair_ends (h : Fitting G c) (id : YamlId) :
    Except.Ends (Fitting G) G.FailsBy (readPair c id) := by
  unfold readPair
  dsimp only
  split
  · exact visit_ends h _
  · exact .error (.inl rfl)
  · exact .error (.inl rfl)

theorem readContent_ends (h : Fitting G c) (u : Unread) :
    Except.Ends (Fitting G) G.FailsBy (readContent c u) := by
  unfold readContent
  split
  case h_1 =>
    refine (itemsOf_ends c u.id _).bind fun items _ => (visit_ends h items).bind fun c' hc' => ?_
    exact .ok (hc'.setValue trivial)
  case h_2 =>
    refine (membersOf_ends h u.id).bind fun ⟨members, c'⟩ ⟨hnames, hc'⟩ => ?_
    exact .ok (hc'.setValue hnames)
  case h_3 => exact (membersOf_ends h u.id).bind fun out hout => .ok hout.2
  case h_4 =>
    refine (itemsOf_ends c u.id _).bind fun items _ => ?_
    refine Except.Ends.bind (.foldlM h fun c hc id _ => readPair_ends hc id) fun c' hc' => ?_
    exact .ok (hc'.setValue trivial)

theorem readWaiting_ends (fuel : Nat) (h : Fitting G c) :
    Except.Ends (Fitting G) G.FailsBy (readWaiting fuel c) := by
  induction fuel generalizing c with
  | zero => exact .ok h
  | succ fuel ih =>
    refine .ite (.ok h) (Except.Ends.bind ?_ fun c' hc' => ih hc')
    exact .foldlM (h.requeue []) fun c hc u _ => readContent_ends hc u

theorem ofGraph_ends (g : YamlGraph) (id : YamlId) :
    Except.Ends (Fitting g) g.FailsBy (ofGraph g id) :=
  (valueOf_ends (.start g) id).bind fun ⟨_, _⟩ hout => readWaiting_ends _ hout.2

/-! ## JSON -/

variable {json : Json} {fault : YamlFault} {fuel : Nat} {around : List YamlId}

theorem Unfolds.isWellFormed (hc : Fitting G c) (h : c.Unfolds id json) :
    json.isWellFormed = true := by
  -- On the depth of the tree: the parts of a value are less deep.
  induction hdepth : json.depth using Nat.strong_induction_on generalizing id json with
  | _ depth ih =>
    subst hdepth
    cases h with
    | scalar _ hjson => exact (flat_of_json? hjson).2
    | noPairs => rfl
    | sequence _ hvalues =>
      refine Json.isWellFormed_arr fun value hvalue => ?_
      obtain ⟨inner, -, hinner⟩ := exists_of_forall₂ hvalues.flip hvalue
      exact ih _ (Json.depth_item hvalue) hinner rfl
    | @mapping _ members values hfound hnames hvalues =>
      refine Json.isWellFormed_obj (hnames ▸ hc.nodup_names hfound) fun name value hvalue => ?_
      obtain ⟨inner, -, hinner⟩ :=
        exists_of_forall₂ hvalues.flip (List.mem_map.mpr ⟨_, hvalue, rfl⟩)
      exact ih _ (Json.depth_member hvalue) hinner rfl

theorem Stops.isOfDocument (h : c.Stops fuel around id fault) : fault.isOfDocument = true := by
  cases h <;> rfl

end Construction

/-- A document has a well-formed value, unless it is at fault or one of its scalars is misread. -/
theorem ComposedDocument.toJson_ends (document : ComposedDocument) :
    Except.Ends (·.isWellFormed = true) document.graph.FailsBy document.toJson := by
  unfold toJson
  split
  · exact .ok rfl
  · refine (Construction.ofGraph_ends _ _).bind fun c hc => ?_
    exact (Construction.toJson_ends (.nil _) []).imp (fun _ hjson => hjson.isWellFormed hc)
      fun _ hstops => .inl hstops.isOfDocument

end Yaml

open Yaml

/-! ## Texts -/

theorem YamlSource.ofText_ends (text : String) :
    Except.Ends (· = text.toList) (·.isOfDocument = true) (YamlSource.ofText text) := by
  unfold YamlSource.ofText YamlSource.checked
  dsimp only
  split
  · exact .ok rfl
  · exact .error rfl

theorem Yaml.ComposedDocument.ofText_ends (text : String) :
    Except.Ends (fun _ => True) (IsLexical text.toList) (ofText text) := by
  refine ((YamlSource.ofText_ends text).mono fun _ => .inl).bind fun cs hcs => ?_
  subst hcs
  exact ends_ofChars text.toList

/--
A YAML text has a JSON value without repeated names, or its document is at fault. Anything else is
due to a number of the text that is no scalar and cannot be read, or to a scalar that is misread.
-/
theorem yaml_text_outcomes (text : String) :
    (∃ document, Json.parseYaml text = .ok document ∧ document.isWellFormed = true) ∨
    (∃ fault, Json.parseYaml text = .error (.yaml fault) ∧ fault.isOfDocument = true) ∨
    ∃ cause, Json.parseYaml text = .error (.yaml (.scalar cause)) ∧
      (BadNumber text.toList cause ∨ ∃ document, ComposedDocument.ofText text = .ok document ∧
        document.graph.Misread cause) := by
  have hcomposed := ComposedDocument.ofText_ends text
  cases hdocument : ComposedDocument.ofText text with
  | error fault =>
    have hparse : Json.parseYaml text = .error (.yaml fault) := by
      rw [parseYaml_eq, hdocument]
      rfl
    rw [hdocument] at hcomposed
    rcases hcomposed.of_error with hfault | ⟨cause, rfl, hbad⟩
    · exact .inr (.inl ⟨fault, hparse, hfault⟩)
    · exact .inr (.inr ⟨cause, hparse, .inl hbad⟩)
  | ok document =>
    have hends := document.toJson_ends
    rw [parseYaml_composed hdocument]
    cases hjson : document.toJson with
    | ok json =>
      rw [hjson] at hends
      exact .inl ⟨json, rfl, hends.of_ok⟩
    | error fault =>
      rw [hjson] at hends
      rcases hends.of_error with hfault | ⟨cause, rfl, hmisread⟩
      · exact .inr (.inl ⟨fault, rfl, hfault⟩)
      · exact .inr (.inr ⟨cause, rfl, .inr ⟨document, rfl, hmisread⟩⟩)

example : (match Json.parseYaml "!!int abc" with
    | .error (.yaml fault) => some fault
    | _ => none) = some (.scalar (.numeral (.notAnInteger 10 "abc"))) := by decide +kernel

example : (match Json.parseYaml "\x7b0b_: 1\x7d" with
    | .error (.yaml fault) => some fault
    | _ => none) = some (.scalar (.numeral (.notAnInteger 2 ""))) := by decide +kernel

end JsonSchema

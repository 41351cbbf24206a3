import JsonSchema.Proofs.Evaluation.Safety
import JsonSchema.Proofs.Relation
import JsonSchema.Proofs.Schema.Result
import Mathlib.Data.List.Nodup

/-!
# Well-formed schemas

A compilation that succeeds leaves an array of nodes in which every index that a node names has a
node, and in which locations and nodes belong to each other one by one. So no evaluation breaks.
-/

namespace JsonSchema

open CompileM

/-! ## Counts -/

theorem Binary64.truncate_of_value {x : Binary64} {k : ℤ} (h : x.value = k) : x.truncate = k := by
  have hscaled : x.scaled = k * (2 ^ unitBits : ℕ) := by
    have := x.scaled_eq
    rw [h] at this
    exact_mod_cast this
  have hunit : ((2 ^ unitBits : ℕ) : ℤ) ≠ 0 := Int.natCast_ne_zero.mpr two_pow_unitBits_pos.ne'
  simp only [truncate, Nat.pow_eq, Int.natCast_ediv]
  unfold scaled at hscaled
  split at hscaled
  case isTrue hnegative =>
    rw [show (x.magnitude : ℤ) = -k * (2 ^ unitBits : ℕ) by rw [neg_mul, ← hscaled, neg_neg],
      Int.mul_ediv_cancel _ hunit, if_pos hnegative, neg_neg]
  case isFalse hpositive => rw [hscaled, Int.mul_ediv_cancel _ hunit, if_neg hpositive]

theorem Number.truncate_of_value {n : Number} {k : ℤ} (h : n.value = k) : n.truncate = k := by
  cases n with
  | int m =>
    have hm : (m : ℚ) = k := h
    exact_mod_cast hm
  | float x => exact Binary64.truncate_of_value h

namespace Members

variable {schema : Members Json} {keyword : String}

theorem number_of_count? {count : Nat} (h : schema.count? keyword = .ok (some count)) :
    ∃ n, schema.get? keyword = some (.num n) ∧ n.value = count := by
  unfold count? at h
  split at h
  case h_1 => cases h
  case h_2 n hget =>
    split at h
    case isTrue hcount =>
      rw [Bool.and_eq_true, Number.isIntegral_iff, Number.le_iff] at hcount
      obtain ⟨⟨k, hk⟩, hpositive⟩ := hcount
      have hk0 : 0 ≤ k := by
        rw [hk, show (Number.int 0).value = 0 from rfl] at hpositive
        exact_mod_cast hpositive
      refine ⟨n, hget, ?_⟩
      rw [← Option.some.inj (Except.ok.inj h), Number.truncate_of_value hk, hk]
      exact_mod_cast (Int.toNat_of_nonneg hk0).symm
    case isFalse => cases h
  case h_3 => cases h

end Members

namespace SchemaNode

def counts (node : SchemaNode) : List (String × Option Nat) :=
  [("minLength", node.string.minLength), ("maxLength", node.string.maxLength),
    ("minItems", node.array.minItems), ("maxItems", node.array.maxItems),
    ("minContains", node.array.minContains), ("maxContains", node.array.maxContains),
    ("minProperties", node.object.minProperties), ("maxProperties", node.object.maxProperties)]

/-- Every count of the node is the value of a number in the schema object. -/
def CountsOf (node : SchemaNode) (members : Members Json) : Prop :=
  ∀ keyword count, (keyword, some count) ∈ node.counts →
    ∃ n, members.get? keyword = some (.num n) ∧ n.value = count

end SchemaNode

namespace SchemaReading

variable {c : Compilation} {site : Site} {schema : Members Json} {node : SchemaNode}

theorem lengths (h : SchemaReading c site schema node) :
    schema.count? "minLength" = .ok node.string.minLength ∧
      schema.count? "maxLength" = .ok node.string.maxLength := by
  have hread := h.string
  simp only [readStringKeywords, Except.bind_eq_ok, Except.pure_eq_ok, Except.mapError_eq_ok]
    at hread
  obtain ⟨minLength, hmin, maxLength, hmax, pattern, -, format, -, heq⟩ := hread
  rw [← heq]
  exact ⟨hmin, hmax⟩

theorem countsOf (h : SchemaReading c site schema node) : node.CountsOf schema := by
  obtain ⟨hminLength, hmaxLength⟩ := h.lengths
  have hread : ∀ entry ∈ node.counts, schema.count? entry.1 = .ok entry.2 := by
    simp only [SchemaNode.counts, List.forall_mem_cons]
    exact ⟨hminLength, hmaxLength, h.array.minItems, h.array.maxItems, h.array.minContains,
      h.array.maxContains, h.object.minProperties, h.object.maxProperties, by simp⟩
  exact fun keyword count hmem => Members.number_of_count? (hread _ hmem)

theorem step_pos (h : SchemaReading c site schema node) {step : Number}
    (hstep : step ∈ node.number.multipleOf) : 0 < step.value := by
  have hread := h.number
  simp only [readNumberKeywords, Except.bind_eq_ok] at hread
  obtain ⟨minimum, -, maximum, -, low, -, high, -, found, -, hread⟩ := hread
  cases found with
  | none =>
    rw [← Except.pure_eq_ok.mp hread] at hstep
    cases hstep
  | some s =>
    dsimp only at hread
    split at hread
    case isTrue => cases hread
    case isFalse hpositive =>
      rw [← Except.pure_eq_ok.mp hread] at hstep
      obtain rfl := Option.some.inj hstep
      rw [Number.le_iff, not_le] at hpositive
      exact hpositive.trans_eq' (by simp [Number.value])

end SchemaReading

/-! ## Children -/

namespace Compilation

variable {options : CompileOptions} {root : Json} {c : Compilation} {site : Site}
  {schema : Members Json} {keyword : String} {id : NodeId}

theorem NodeOf.lt {key pointer : String} {value : Json} (h : c.NodeOf key pointer value id)
    (hc : c.Aligned) : id < c.nodes.size :=
  hc.size ▸ h.located.lt

theorem lt_of_keyword (hc : c.Aligned) {child : Option NodeId}
    (h : KeywordNode c site schema keyword child) (hid : child = some id) :
    id < c.nodes.size := by
  unfold KeywordNode at h
  rw [hid] at h
  generalize schema.get? keyword = found at h
  obtain hnode | _ := h
  exact NodeOf.lt hnode hc

theorem lt_of_items (hc : c.Aligned) {items : List Json} {children : List NodeId}
    (h : ItemNodes c site keyword items children) (hid : id ∈ children) : id < c.nodes.size := by
  obtain ⟨_, -, hnode⟩ := exists_of_forall₂ h hid
  exact NodeOf.lt hnode hc

theorem lt_of_members (hc : c.Aligned) {members : Members Json} {children : Members NodeId}
    {name : String} (h : MemberNodes c site keyword members children)
    (hid : (name, id) ∈ children) : id < c.nodes.size := by
  obtain ⟨_, -, -, hnode⟩ := exists_of_forall₂ h hid
  exact NodeOf.lt hnode hc

theorem lt_of_patterns (hc : c.Aligned) {members : Members Json} {children : List PatternProperty}
    {entry : PatternProperty} (h : PatternNodes c site members children)
    (hentry : entry ∈ children) : entry.node < c.nodes.size := by
  obtain ⟨_, -, -, hnode⟩ := exists_of_forall₂ h hentry
  exact NodeOf.lt hnode hc

theorem lt_of_olderDependencies (hc : c.Aligned) {done result : Dependencies}
    {members : Members Json} (h : OlderDependencies c site done members result)
    (hdone : ∀ entry ∈ done.schemas, entry.2 < c.nodes.size) :
    ∀ entry ∈ result.schemas, entry.2 < c.nodes.size := by
  induction h with
  | none => exact hdone
  | names _ _ ih => exact ih hdone
  | schema _ hnode _ ih =>
    refine ih fun entry hentry => ?_
    rcases Members.mem_put hentry with hold | rfl
    · exact hdone entry hold
    · exact NodeOf.lt hnode hc

theorem lt_of_dependencies (hc : c.Aligned) {dependencies : Dependencies}
    (h : DependencyReading c site schema dependencies) :
    ∀ entry ∈ dependencies.schemas, entry.2 < c.nodes.size := by
  obtain ⟨names, schemas, -, hschemas, holder⟩ := h
  exact lt_of_olderDependencies hc holder fun entry hentry => lt_of_members hc hschemas hentry

theorem lt_of_itemSchemas (hc : c.Aligned) {children : ItemSchemas}
    (h : ItemSchemaNodes c site schema children) :
    (∀ id ∈ children.first, id < c.nodes.size) ∧
      ∀ id, children.rest = some id → id < c.nodes.size := by
  unfold ItemSchemaNodes at h
  split at h
  case h_1 => exact ⟨fun id hid => lt_of_items hc h.first hid, fun id => lt_of_keyword hc h.rest⟩
  case h_2 => exact ⟨fun id hid => lt_of_items hc h.first hid, fun id => lt_of_keyword hc h.rest⟩

theorem lt_of_child {value : Json} {node : SchemaNode} {target : Option NodeId} (hc : c.Aligned)
    (h : Reading c site value node) (htarget : ∀ id, target = some id → id < c.nodes.size)
    (hid : ({ node with refTarget := target }).Child id) : id < c.nodes.size := by
  cases value with
  | bool b =>
    rw [show node = _ from h] at hid
    cases hid with
    | target hsome => exact htarget _ hsome
    | property hmem | patternProperty hmem | dependentSchema hmem | firstItem hmem | allOf hmem
    | anyOf hmem | oneOf hmem => simp at hmem
    | items hsome | contains hsome | additionalProperties hsome | propertyNames hsome
    | negated hsome | condition hsome | consequent hsome | alternative hsome => cases hsome
  | obj schema =>
    replace h : SchemaReading c site schema node := h
    cases hid with
    | target hsome => exact htarget _ hsome
    | firstItem hmem => exact (lt_of_itemSchemas hc h.array.items).1 _ hmem
    | items hsome => exact (lt_of_itemSchemas hc h.array.items).2 _ hsome
    | contains hsome => exact lt_of_keyword hc h.array.contains hsome
    | property hmem => exact lt_of_members hc h.object.properties hmem
    | patternProperty hmem => exact lt_of_patterns hc h.object.patternProperties hmem
    | additionalProperties hsome => exact lt_of_keyword hc h.object.additionalProperties hsome
    | propertyNames hsome => exact lt_of_keyword hc h.object.propertyNames hsome
    | dependentSchema hmem => exact lt_of_dependencies hc h.object.dependencies _ hmem
    | allOf hmem => exact lt_of_items hc h.composition.allOf hmem
    | anyOf hmem => exact lt_of_items hc h.composition.anyOf hmem
    | oneOf hmem => exact lt_of_items hc h.composition.oneOf hmem
    | negated hsome => exact lt_of_keyword hc h.composition.negated hsome
    | condition hsome => exact lt_of_keyword hc h.composition.condition hsome
    | consequent hsome => exact lt_of_keyword hc h.composition.consequent hsome
    | alternative hsome => exact lt_of_keyword hc h.composition.alternative hsome
  | _ => exact h.elim

theorem idxOf?_eq_some_iff_of_nodup {locations : Array String} {location : String}
    (hnodup : locations.toList.Nodup) :
    locations.idxOf? location = some id ↔ locations[id]? = some location := by
  have hlist : locations.toList.toArray = locations := Array.toArray_toList
  rw [← hlist, List.idxOf?_toArray, List.idxOf?_eq_some_iff, List.getElem?_toArray,
    List.getElem?_eq_some_iff]
  constructor
  · rintro ⟨hlt, hid, -⟩
    exact ⟨hlt, hid⟩
  · rintro ⟨hlt, hid⟩
    refine ⟨hlt, hid, fun j hj heq => ?_⟩
    have := (List.Nodup.getElem_inj_iff hnodup).mp (heq.trans hid.symm)
    omega

namespace Finished

theorem size_freeze (h : Finished options root c) : c.freeze.nodes.size = c.nodes.size := by
  have hsome : ∀ id, (c.freeze.node? id).isSome ↔ (c.nodes[id]?).isSome := by
    intro id
    rw [h.node?_freeze, Option.isSome_map]
    cases hget : c.nodes[id]? with
    | none => rfl
    | some node =>
      have := h.nodes_isSome node (by simpa using Array.mem_of_getElem? hget)
      simpa using this
  simp only [CompiledSchema.node?, isSome_getElem?] at hsome
  have hlt : ∀ id, id < c.freeze.nodes.size ↔ id < c.nodes.size := by simpa using hsome
  exact Nat.le_antisymm (Nat.le_of_not_lt fun hmore => by simpa using (hlt _).mp hmore)
    (Nat.le_of_not_lt fun hmore => by simpa using (hlt _).mpr hmore)

end Finished

end Compilation

/-! ## Compiled schemas -/

namespace CompiledSchema

/-- Indices, locations and nodes belong together, and no node names an index without a node. -/
structure WellFormed (schema : CompiledSchema) : Prop where
  size : schema.locations.size = schema.nodes.size
  root : schema.locations[rootId]? = some "#"
  index : ∀ id node, schema.node? id = some node → node.id = id
  lookup : ∀ location id, schema.locations.idxOf? location = some id ↔
    ∃ node, schema.node? id = some node ∧ node.location = location
  children : ∀ id node, schema.node? id = some node → ∀ child, node.Child child →
    child < schema.nodes.size
  target : ∀ id node, schema.node? id = some node → (node.refTarget.isSome ↔ node.ref.isSome)
  steps : ∀ id node, schema.node? id = some node → ∀ step ∈ node.number.multipleOf, 0 < step.value

end CompiledSchema

namespace Compilation.Finished

variable {options : CompileOptions} {root : Json} {c : Compilation} {id : NodeId}

theorem lookup_isSome_iff {site : Site} {value : Json} {node : SchemaNode}
    (h : Finished options root c) (hbuilt : c.Built id site value node) :
    (c.targets.lookup id).isSome ↔ node.ref.isSome := by
  cases href : node.ref with
  | none => simp [h.lookup_of_none hbuilt href]
  | some ref =>
    obtain ⟨target, hlookup, -⟩ := h.lookup_of_ref hbuilt href
    rw [hlookup]
    rfl

theorem target_lt {key ref : String} (h : Finished options root c) (hanswers : c.Answers key ref id) :
    id < c.nodes.size := by
  obtain ⟨uri, fragment, target, -, -, hpoints⟩ := hanswers
  unfold PointsTo at hpoints
  split at hpoints
  case isTrue =>
    obtain ⟨site, value, node, hbuilt, -⟩ := h.sound.anchors _ hpoints
    exact hbuilt.lt
  case isFalse =>
    obtain ⟨tokens, -, hlocated⟩ := hpoints
    exact h.sound.aligned.size ▸ hlocated.lt

theorem wellFormed (h : Finished options root c) : c.freeze.WellFormed where
  size := h.sound.aligned.size.trans h.size_freeze.symm
  root := h.root
  index := by
    intro id found hfound
    obtain ⟨site, value, node, hbuilt, rfl⟩ := h.built_of_node? hfound
    exact hbuilt.index
  lookup := by
    intro location id
    rw [show c.freeze.locations = c.locations from rfl,
      idxOf?_eq_some_iff_of_nodup h.sound.aligned.nodup]
    constructor
    · intro hlocation
      have hid : id < c.nodes.size :=
        h.sound.aligned.size ▸ (Array.getElem?_eq_some_iff.mp hlocation).1
      obtain ⟨site, value, node, hbuilt, -⟩ := h.sound.built id hid
      refine ⟨_, h.node?_of_built hbuilt, hbuilt.location.trans ?_⟩
      exact Option.some.inj (hbuilt.nodeOf.located.symm.trans hlocation)
    · rintro ⟨found, hfound, rfl⟩
      obtain ⟨site, value, node, hbuilt, rfl⟩ := h.built_of_node? hfound
      exact hbuilt.nodeOf.located.trans (congrArg some hbuilt.location.symm)
  children := by
    intro id found hfound child hchild
    obtain ⟨site, value, node, hbuilt, rfl⟩ := h.built_of_node? hfound
    rw [h.size_freeze]
    refine lt_of_child h.sound.aligned (hbuilt.reading c (Extends.refl c)) (fun t ht => ?_) hchild
    cases href : node.ref with
    | none =>
      rw [h.lookup_of_none hbuilt href] at ht
      cases ht
    | some ref =>
      obtain ⟨target, hlookup, hanswers⟩ := h.lookup_of_ref hbuilt href
      rw [hlookup, Option.some.injEq] at ht
      exact ht ▸ h.target_lt hanswers
  target := by
    intro id found hfound
    obtain ⟨site, value, node, hbuilt, rfl⟩ := h.built_of_node? hfound
    show (c.targets.lookup id).isSome ↔ node.ref.isSome
    exact h.lookup_isSome_iff hbuilt
  steps := by
    intro id found hfound step hstep
    obtain ⟨site, value, node, hbuilt, rfl⟩ := h.built_of_node? hfound
    have hreading := hbuilt.reading c (Extends.refl c)
    cases value with
    | bool b =>
      rw [show node = _ from hreading] at hstep
      cases hstep
    | obj schema => exact SchemaReading.step_pos hreading hstep
    | _ => exact hreading.elim

theorem counts_origin {node : SchemaNode} (h : Finished options root c)
    (hnode : c.freeze.node? id = some node) (hboolean : node.boolean = none) :
    ∃ members, options.Origin root node (.obj members) ∧ node.CountsOf members := by
  obtain ⟨site, value, node, hbuilt, rfl⟩ := h.built_of_node? hnode
  have hreading := hbuilt.reading c (Extends.refl c)
  cases value with
  | bool b =>
    rw [show node = _ from hreading] at hboolean
    cases hboolean
  | obj schema =>
    have hcounts : node.CountsOf schema := SchemaReading.countsOf hreading
    exact ⟨schema, hbuilt.origin h.sound.loaded, hcounts⟩
  | _ => exact hreading.elim

end Compilation.Finished

/-! ## Outcomes -/

/--
What a compilation leaves is well-formed, and so no evaluation of an instance breaks: whatever a
missing node or a division by zero would come to, the outcome is the same, and the branch that a
failing `anyOf` or `oneOf` shows is one of its branches.
-/
theorem compiled_wellFormed {options : CompileOptions} {document : Json} {schema : CompiledSchema}
    (h : (runCompile options document).result = .ok schema) :
    schema.WellFormed ∧
      (∀ id node, schema.node? id = some node → node.boolean = none →
        ∃ members, options.Origin document node (.obj members) ∧ node.CountsOf members) ∧
      ∀ evaluation budget, (∀ broken id, id < schema.nodes.size →
          schema.guarded evaluation broken budget id = schema.evaluate evaluation budget id) ∧
        ∀ (node : SchemaNode) value path violations,
          (node.anyOfViolations (schema.evaluate evaluation budget) value path = .ok violations →
            SchemaNode.Reports (schema.evaluate evaluation budget) value path
              node.composition.anyOf violations) ∧
          (node.oneOfViolations (schema.evaluate evaluation budget) value path = .ok violations →
            SchemaNode.Reports (schema.evaluate evaluation budget) value path
                node.composition.oneOf violations ∨
              (∃ branch ∈ node.composition.oneOf,
                schema.evaluate evaluation budget branch value path = .ok []) ∧
              ∃ first, violations = [first]) := by
  obtain ⟨c, hc, rfl⟩ := finished_of_result h
  have hwell := hc.wellFormed
  refine ⟨hwell, fun id node hnode hboolean => hc.counts_origin hnode hboolean, ?_⟩
  intro evaluation budget
  refine ⟨fun broken id hid => ?_, fun node value path violations => ⟨?_, ?_⟩⟩
  · exact CompiledSchema.guarded_eq_evaluate hwell.children hwell.steps evaluation broken budget hid
  · exact SchemaNode.anyOfViolations_reports
  · exact SchemaNode.oneOfViolations_reports

def half : Binary64 := ⟨false, Nat.pow 2 52, 1021, by decide, by decide, by decide⟩

/-- A schema with a count and a step that are written with fractions, and a reference to itself. -/
def halves : Json :=
  .obj [("multipleOf", .float half), ("anyOf", .arr [.obj [("$ref", .str "#/$defs/word")], .bool true]),
    ("$defs", .obj [("word", .obj [("minLength", .int 1), ("items", .obj [("$ref", .str "#")])])])]

theorem halves_wellFormed : ∃ schema, (runCompile ⟨10, true, []⟩ halves).result = .ok schema ∧
    schema.WellFormed ∧ schema.nodes.size = 5 := by
  have hrun : (runCompile ⟨10, true, []⟩ halves).result.toOption.map (·.nodes.size) = some 5 := by
    decide +kernel
  simp only [Option.map_eq_some_iff, Except.toOption_eq_some] at hrun
  obtain ⟨schema, hschema, hsize⟩ := hrun
  exact ⟨schema, hschema, (compiled_wellFormed hschema).1, hsize⟩

end JsonSchema

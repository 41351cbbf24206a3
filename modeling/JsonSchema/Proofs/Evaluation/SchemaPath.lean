import JsonSchema.Proofs.Evaluation.Place
import JsonSchema.Proofs.Interpreter.Values
import JsonSchema.Proofs.Schema.Result

/-!
# Where violations are in a schema

The schema path of a violation leads to the value of its keyword, in the document of the schema
object that is violated. The older keyword for dependencies is the exception: it is reported by the
names of the newer keywords, which need not be there.
-/

namespace JsonSchema

open CompileM

/-! ## Keywords that were read -/

namespace Members

variable {schema : Members Json} {keyword : String}

theorem has_of_number? {found : Option Number} (h : schema.number? keyword = .ok found) :
    schema.has keyword = found.isSome := by
  unfold number? at h
  rw [has]
  split at h
  case h_1 hnone => cases h; simp [hnone]
  case h_2 n hsome => cases h; simp [hsome]
  case h_3 => cases h

theorem has_of_bool (h : schema.bool keyword = .ok true) : schema.has keyword = true := by
  unfold bool at h
  rw [has]
  split at h
  case h_1 => cases h
  case h_2 b hsome => simp [hsome]
  case h_3 => cases h

theorem has_of_mapM {ε α : Type} {read : Json → Except ε α} {found : Option α}
    (h : (schema.get? keyword).mapM read = .ok found) : schema.has keyword = found.isSome := by
  rw [has]
  cases hget : schema.get? keyword with
  | none =>
    rw [hget] at h
    cases h
    rfl
  | some value =>
    rw [hget, Option.mapM_some] at h
    obtain ⟨a, -, ha⟩ := Except.map_eq_ok.mp h
    rw [← ha]
    rfl

theorem has_of_itemsAt (h : schema.itemsAt keyword ≠ []) : schema.has keyword = true := by
  unfold itemsAt at h
  split at h
  case h_1 hget => rw [has, hget, Option.isSome_some]
  case h_2 => exact absurd rfl h

theorem has_of_membersAt (h : schema.membersAt keyword ≠ []) : schema.has keyword = true := by
  unfold membersAt at h
  split at h
  case h_1 hget => rw [has, hget, Option.isSome_some]
  case h_2 => exact absurd rfl h

theorem has_of_members {α : Type} {r : α → String × Json → Prop} {children : List α}
    (h : List.Forall₂ r children (schema.membersAt keyword)) (hne : children ≠ []) :
    schema.has keyword = true := by
  refine has_of_membersAt fun hnil => hne ?_
  rw [hnil] at h
  exact List.forall₂_nil_right_iff.mp h

end Members

section

variable {c : Compilation} {site : Site} {schema : Members Json} {keyword : String}

theorem KeywordNode.has {child : Option NodeId} (h : KeywordNode c site schema keyword child) :
    schema.has keyword = child.isSome := by
  rw [Members.has]
  unfold KeywordNode at h
  generalize schema.get? keyword = found at h ⊢
  cases h <;> rfl

theorem ItemNodes.has {children : List NodeId}
    (h : ItemNodes c site keyword (schema.itemsAt keyword) children) (hne : children ≠ []) :
    schema.has keyword = true := by
  refine Members.has_of_itemsAt fun hnil => hne ?_
  rw [hnil] at h
  exact List.forall₂_nil_right_iff.mp h

/-! ## Groups of keywords -/

theorem ValueKeywords.has_of_present {keywords : ValueKeywords}
    (hread : readValueKeywords schema = .ok keywords) (h : (keyword, true) ∈ keywords.present) :
    schema.has keyword = true := by
  simp only [readValueKeywords, Except.bind_eq_ok, Except.pure_eq_ok] at hread
  obtain ⟨types, htypes, options, hoptions, rfl⟩ := hread
  simp only [present, List.mem_cons, Prod.mk.injEq, List.not_mem_nil, or_false] at h
  rcases h with ⟨rfl, h⟩ | ⟨rfl, h⟩ | ⟨rfl, h⟩
  · rw [Members.has_of_mapM htypes, ← h]
  · rw [Members.has_of_mapM hoptions, ← h]
  · exact h.symm

theorem has_of_readBound {declaration : DraftDeclaration} {inclusive : Option Number} {bound : Bound}
    (h : readBound declaration schema keyword inclusive = .ok bound) :
    (bound.exclusive.isSome = true → schema.has keyword = true) ∧
      (bound.inclusive.isSome = true → inclusive.isSome = true) := by
  unfold readBound at h
  split at h
  case h_1 isExclusive hget =>
    have hhas : schema.has keyword = true := by rw [Members.has, hget, Option.isSome_some]
    split at h
    · cases h
    · split at h <;> cases h
      · exact ⟨fun _ => hhas, by simp⟩
      · exact ⟨by simp, id⟩
  case h_2 =>
    obtain ⟨exclusive, hexclusive, rfl⟩ := Except.map_eq_ok.mp h
    exact ⟨fun hsome => (Members.has_of_number? hexclusive).trans hsome, id⟩

theorem NumberKeywords.has_of_present {declaration : DraftDeclaration} {keywords : NumberKeywords}
    (hread : readNumberKeywords declaration schema = .ok keywords)
    (h : (keyword, true) ∈ keywords.present) : schema.has keyword = true := by
  simp only [readNumberKeywords, Except.bind_eq_ok] at hread
  obtain ⟨minimum, hminimum, maximum, hmaximum, low, hlow, high, hhigh, step, hstep, hread⟩ := hread
  obtain rfl : ⟨low.inclusive, high.inclusive, low.exclusive, high.exclusive, step⟩ = keywords := by
    split at hread
    · split at hread
      · cases hread
      · exact Except.pure_eq_ok.mp hread
    · exact Except.pure_eq_ok.mp hread
  simp only [present, List.mem_cons, Prod.mk.injEq, List.not_mem_nil, or_false] at h
  rcases h with ⟨rfl, h⟩ | ⟨rfl, h⟩ | ⟨rfl, h⟩ | ⟨rfl, h⟩ | ⟨rfl, h⟩
  · exact (Members.has_of_number? hminimum).trans ((has_of_readBound hlow).2 h.symm)
  · exact (Members.has_of_number? hmaximum).trans ((has_of_readBound hhigh).2 h.symm)
  · exact (has_of_readBound hlow).1 h.symm
  · exact (has_of_readBound hhigh).1 h.symm
  · exact (Members.has_of_number? hstep).trans h.symm

theorem StringKeywords.has_of_present {location : String} {keywords : StringKeywords}
    (hread : readStringKeywords location schema = .ok keywords)
    (h : (keyword, true) ∈ keywords.present) : schema.has keyword = true := by
  simp only [readStringKeywords, Except.bind_eq_ok, Except.pure_eq_ok, Except.mapError_eq_ok]
    at hread
  obtain ⟨minLength, hmin, maxLength, hmax, pattern, hpattern, format, hformat, rfl⟩ := hread
  simp only [present, List.mem_cons, Prod.mk.injEq, List.not_mem_nil, or_false] at h
  rcases h with ⟨rfl, h⟩ | ⟨rfl, h⟩ | ⟨rfl, h⟩ | ⟨rfl, h⟩
  · exact (Interpreter.has_of_count hmin).trans h.symm
  · exact (Interpreter.has_of_count hmax).trans h.symm
  · exact (Members.has_of_mapM hpattern).trans h.symm
  · exact (Members.has_of_mapM hformat).trans h.symm

theorem ItemSchemaNodes.has {children : ItemSchemas} (h : ItemSchemaNodes c site schema children) :
    (children.first ≠ [] → schema.has children.firstKeyword = true ∧
      children.firstKeyword ∈ assertionKeywords) ∧
    (children.rest.isSome = true → schema.has children.restKeyword = true ∧
      children.restKeyword ∈ assertionKeywords) := by
  unfold ItemSchemaNodes at h
  split at h
  case h_1 items hget =>
    refine ⟨fun _ => ?_, fun hrest => ?_⟩
    · rw [h.firstKeyword, Members.has, hget]
      exact ⟨rfl, by decide⟩
    · rw [h.restKeyword hrest]
      exact ⟨h.rest.has.trans hrest, by decide⟩
  case h_2 =>
    refine ⟨fun hfirst => ?_, fun hrest => ?_⟩
    · have hnodes := h.first
      rw [h.firstKeyword]
      split at hnodes
      case isTrue => exact ⟨hnodes.has hfirst, by decide⟩
      case isFalse => exact absurd (List.forall₂_nil_right_iff.mp hnodes) hfirst
    · rw [h.restKeyword]
      exact ⟨h.rest.has.trans hrest, by decide⟩

theorem ArrayReading.has_of_present {keywords : ArrayKeywords}
    (hread : ArrayReading c site schema keywords) (h : (keyword, true) ∈ keywords.present) :
    schema.has keyword = true := by
  simp only [ArrayKeywords.present, List.mem_cons, Prod.mk.injEq, List.not_mem_nil, or_false] at h
  rcases h with ⟨rfl, h⟩ | ⟨rfl, h⟩ | ⟨rfl, h⟩ | ⟨rfl, h⟩ | ⟨rfl, h⟩ | ⟨rfl, h⟩ | ⟨rfl, h⟩ | ⟨rfl, h⟩
  · exact (Interpreter.has_of_count hread.minItems).trans h.symm
  · exact (Interpreter.has_of_count hread.maxItems).trans h.symm
  · exact Members.has_of_bool (h ▸ hread.uniqueItems)
  · exact (hread.items.has.1 (by simpa using h)).1
  · exact (hread.items.has.2 h.symm).1
  · exact hread.contains.has.trans h.symm
  · exact (Interpreter.has_of_count hread.minContains).trans h.symm
  · exact (Interpreter.has_of_count hread.maxContains).trans h.symm

theorem DependencyReading.has {dependencies : Dependencies}
    (h : DependencyReading c site schema dependencies) :
    (dependencies.names ≠ [] →
      schema.has "dependentRequired" = true ∨ schema.has "dependencies" = true) ∧
    (dependencies.schemas ≠ [] →
      schema.has "dependentSchemas" = true ∨ schema.has "dependencies" = true) := by
  obtain ⟨names, schemas, hnames, hschemas, holder⟩ := h
  by_cases hnone : schema.membersAt "dependencies" = []
  · rw [hnone] at holder
    cases holder
    refine ⟨fun hne => .inl (Members.has_of_membersAt fun hnil => hne ?_),
      fun hne => .inl (Members.has_of_members hschemas hne)⟩
    rw [hnil, readNameLists] at hnames
    exact (Except.pure_eq_ok.mp hnames).symm
  · have hhas := Members.has_of_membersAt hnone
    exact ⟨fun _ => .inr hhas, fun _ => .inr hhas⟩

def newerDependencies : List String := ["dependentRequired", "dependentSchemas"]

theorem ObjectReading.has_of_present {keywords : ObjectKeywords}
    (hread : ObjectReading c site schema keywords) (h : (keyword, true) ∈ keywords.present) :
    schema.has keyword = true ∨
      keyword ∈ newerDependencies ∧ schema.has "dependencies" = true := by
  simp only [ObjectKeywords.present, List.mem_cons, Prod.mk.injEq, List.not_mem_nil, or_false] at h
  have hdependencies := hread.dependencies.has
  rcases h with ⟨rfl, h⟩ | ⟨rfl, h⟩ | ⟨rfl, h⟩ | ⟨rfl, h⟩ | ⟨rfl, h⟩ | ⟨rfl, h⟩ | ⟨rfl, h⟩ |
    ⟨rfl, h⟩ | ⟨rfl, h⟩
  · obtain ⟨names, hnames, hrequired⟩ := hread.required
    refine .inl ((Members.has_of_mapM hnames).trans ?_)
    rw [hrequired] at h
    cases names with
    | none => cases h
    | some names => rfl
  · exact .inl (Members.has_of_members hread.properties (by simpa using h))
  · exact .inl (Members.has_of_members hread.patternProperties (by simpa using h))
  · exact .inl (hread.additionalProperties.has.trans h.symm)
  · exact .inl ((Interpreter.has_of_count hread.minProperties).trans h.symm)
  · exact .inl ((Interpreter.has_of_count hread.maxProperties).trans h.symm)
  · exact .inl (hread.propertyNames.has.trans h.symm)
  · exact (hdependencies.1 (by simpa using h)).imp_right fun hhas => ⟨by decide, hhas⟩
  · exact (hdependencies.2 (by simpa using h)).imp_right fun hhas => ⟨by decide, hhas⟩

theorem CompositionReading.has_of_present {keywords : Composition}
    (hread : CompositionReading c site schema keywords) (h : (keyword, true) ∈ keywords.present) :
    schema.has keyword = true := by
  simp only [Composition.present, List.mem_cons, Prod.mk.injEq, List.not_mem_nil, or_false] at h
  rcases h with ⟨rfl, h⟩ | ⟨rfl, h⟩ | ⟨rfl, h⟩ | ⟨rfl, h⟩ | ⟨rfl, h⟩ | ⟨rfl, h⟩
  · exact hread.allOf.has (by simpa using h)
  · exact hread.anyOf.has (by simpa using h)
  · exact hread.oneOf.has (by simpa using h)
  · exact hread.negated.has.trans h.symm
  · exact hread.consequent.has.trans h.symm
  · exact hread.alternative.has.trans h.symm

variable {node : SchemaNode}

theorem SchemaReading.has_of_present (hread : SchemaReading c site schema node)
    (h : node.Has keyword) : schema.has keyword = true ∨
      keyword ∈ newerDependencies ∧ schema.has "dependencies" = true := by
  simp only [SchemaNode.Has, SchemaNode.present, List.mem_append] at h
  rcases h with ((((h | h) | h) | h) | h) | h
  · exact .inl (ValueKeywords.has_of_present hread.value h)
  · exact .inl (NumberKeywords.has_of_present hread.number h)
  · exact .inl (StringKeywords.has_of_present hread.string h)
  · exact .inl (hread.array.has_of_present h)
  · exact hread.object.has_of_present h
  · exact .inl (hread.composition.has_of_present h)

theorem SchemaReading.mem_assertionKeywords (hread : SchemaReading c site schema node)
    (h : node.Has keyword) : keyword ∈ assertionKeywords := by
  have hgroup : ∀ {entries : List (String × Bool)} (names : List String),
      entries.map (·.1) = names → (∀ name ∈ names, name ∈ assertionKeywords) →
        (keyword, true) ∈ entries → keyword ∈ assertionKeywords := by
    rintro entries _ rfl hnames hmem
    exact hnames keyword (List.mem_map_of_mem hmem)
  simp only [SchemaNode.Has, SchemaNode.present, List.mem_append] at h
  rcases h with ((((h | h) | h) | h) | h) | h
  · exact hgroup ["type", "enum", "const"] rfl (by decide) h
  · exact hgroup ["minimum", "maximum", "exclusiveMinimum", "exclusiveMaximum", "multipleOf"] rfl
      (by decide) h
  · exact hgroup ["minLength", "maxLength", "pattern", "format"] rfl (by decide) h
  · have hitems := hread.array.items.has
    simp only [ArrayKeywords.present, List.mem_cons, Prod.mk.injEq, List.not_mem_nil, or_false] at h
    rcases h with ⟨rfl, h⟩ | ⟨rfl, h⟩ | ⟨rfl, h⟩ | ⟨rfl, h⟩ | ⟨rfl, h⟩ | ⟨rfl, h⟩ | ⟨rfl, h⟩ | ⟨rfl, h⟩
    · decide
    · decide
    · decide
    · exact (hitems.1 (by simpa using h)).2
    · exact (hitems.2 h.symm).2
    · decide
    · decide
    · decide
  · exact hgroup ["required", "properties", "patternProperties", "additionalProperties",
      "minProperties", "maxProperties", "propertyNames", "dependentRequired", "dependentSchemas"]
      rfl (by decide) h
  · exact hgroup ["allOf", "anyOf", "oneOf", "not", "then", "else"] rfl (by decide) h

theorem escape_of_mem_assertionKeywords (h : keyword ∈ assertionKeywords) :
    Pointer.escape keyword = keyword := by
  revert keyword
  decide +kernel

end

/-! ## Places of nodes -/

/-- The value at a location, which is a document's key, a hash mark and a pointer. -/
def CompileOptions.follow? (options : CompileOptions) (root : Json) (location : String) :
    Option (Except PointerFault Json) :=
  let cut := Uri.cutAt '#' location.toList
  (options.source? root (String.ofList cut.1)).map fun content =>
    Pointer.follow content (String.ofList cut.2)

theorem CompileOptions.follow?_locationOf (options : CompileOptions) (root : Json) {key : String}
    (hkey : '#' ∉ key.toList) (pointer : String) :
    options.follow? root (locationOf key pointer) =
      (options.source? root key).map fun content => Pointer.follow content pointer := by
  have hcut : Uri.cutAt '#' (locationOf key pointer).toList = (key.toList, pointer.toList) := by
    rw [locationOf, String.toList_append, String.toList_append, List.append_assoc]
    exact Uri.cutAt_append hkey
  rw [follow?, hcut]
  simp only [String.ofList_toList]

namespace Compilation

variable {options : CompileOptions} {root : Json} {c : Compilation} {id : NodeId} {site : Site}
  {value : Json} {node : SchemaNode}

/-- The location of a node leads to the value that it was read from. -/
theorem Finished.resolve_built (h : Finished options root c)
    (hsources : ∀ key content, options.source? root key = some content → content.Pointable)
    (hbuilt : c.Built id site value node) : ∃ content tokens,
      options.source? root site.key = some content ∧ '#' ∉ site.key.toList ∧
        node.location = locationOf site.key (Pointer.ofTokens tokens) ∧
          Pointer.resolve content tokens = .ok value := by
  obtain ⟨site', value', node', hbuilt', htraced, -⟩ := h.sound.built id hbuilt.lt
  obtain ⟨hkey, hpointer⟩ := (hbuilt.located_iff h.sound.loaded (hbuilt'.hash h.sound.loaded)).mp
    hbuilt'.nodeOf.located
  obtain ⟨content, tokens, start, hsource, -, hresolve, -, more, inner, hleads, hjoin⟩ := htraced
  rw [Pointer.join_ofTokens, hpointer] at hjoin
  rw [hkey] at hsource
  have hcontent := hsources _ _ hsource
  have hinner : Pointer.resolve content (tokens ++ more) = .ok inner := by
    have hstart := hcontent.inside (Pointer.resolve_at hresolve)
    rw [Pointer.resolve, List.foldlM_append]
    exact Except.bind_eq_ok.mpr
      ⟨start, hresolve, Pointer.resolve_of_leads hstart.wellFormed hstart.indices hleads⟩
  have hvalue : inner = value := by
    obtain ⟨document, tokens', hdocument, hpointer', hat⟩ := hbuilt.nodeOf.stands
    have hsame := (h.sound.loaded.source hdocument).content
    obtain rfl := Option.some.inj (hsource.symm.trans hsame)
    obtain rfl := Pointer.ofTokens_injective (hjoin.symm.trans hpointer')
    exact (Pointer.resolve_at hinner).unique hcontent.wellFormed hat
  refine ⟨content, tokens ++ more, hsource, hbuilt.hash h.sound.loaded, ?_, hvalue ▸ hinner⟩
  rw [hbuilt.location, ← hjoin]
  rfl

end Compilation

/-! ## Places of violations -/

/--
Where the schema path of a violation leads: to the schema that refuses every value, to the value of
its keyword in the schema object of the node, or, for a dependency of the older keyword, nowhere.
-/
inductive CompileOptions.Placed (options : CompileOptions) (root : Json) (node : SchemaNode)
    (violation : Violation) : Prop where
  | refused (hkeyword : violation.keyword = "false") (hpath : violation.schemaPath = node.location)
      (h : options.follow? root node.location = some (.ok (.bool false)))
  | keyword {members : Members Json} {value : Json}
      (hpath : violation.schemaPath = node.keywordPath violation.keyword)
      (hnode : options.follow? root node.location = some (.ok (.obj members)))
      (hvalue : members.get? violation.keyword = some value)
      (h : options.follow? root violation.schemaPath = some (.ok value))
  | renamed {members : Members Json} (hkeyword : violation.keyword ∈ newerDependencies)
      (hpath : violation.schemaPath = node.keywordPath violation.keyword)
      (hnode : options.follow? root node.location = some (.ok (.obj members)))
      (holder : members.has "dependencies" = true)
      (h : options.follow? root violation.schemaPath =
        some (.error (.nameNotFound violation.keyword)))

theorem SchemaNode.Raises.reported {node : SchemaNode} {value : Json} {path : Path}
    {violation : Violation} (h : node.Raises value path violation) :
    (node.boolean = some false ∧ violation.keyword = "false" ∧
      violation.schemaPath = node.location) ∨
    (node.boolean = none ∧ node.Has violation.keyword ∧
      violation.schemaPath = node.keywordPath violation.keyword) := by
  cases h with
  | refused hboolean => exact .inl ⟨hboolean, rfl, rfl⟩
  | own hboolean hhas => exact .inr ⟨hboolean, hhas, rfl⟩
  | applied hboolean hhas => exact .inr ⟨hboolean, hhas, rfl⟩

theorem CompileOptions.follow?_keywordPath {options : CompileOptions} {root content : Json}
    {key keyword : String} {tokens : List String} {members : Members Json} {node : SchemaNode}
    (hsource : options.source? root key = some content) (hkey : '#' ∉ key.toList)
    (hlocation : node.location = locationOf key (Pointer.ofTokens tokens))
    (hresolve : Pointer.resolve content tokens = .ok (.obj members))
    (hkeyword : keyword ∈ assertionKeywords) :
    options.follow? root (node.keywordPath keyword) =
      some (Pointer.descend (.obj members) keyword) := by
  have hpath : node.keywordPath keyword = locationOf key (Pointer.ofTokens (tokens ++ [keyword])) := by
    rw [SchemaNode.keywordPath, hlocation, ← Pointer.join_ofTokens, ← String.toList_inj]
    simp [locationOf, Pointer.join, escape_of_mem_assertionKeywords hkeyword]
  rw [hpath, options.follow?_locationOf root hkey, hsource, Option.map_some,
    Pointer.follow_ofTokens, Pointer.resolve_append, hresolve, Except.ok_bind]

theorem CompileOptions.Placed.of_reading {options : CompileOptions} {root : Json}
    {node : SchemaNode} {violation : Violation} {members : Members Json}
    (hnode : options.follow? root node.location = some (.ok (.obj members)))
    (hpath : violation.schemaPath = node.keywordPath violation.keyword)
    (hfollow : options.follow? root violation.schemaPath =
      some (Pointer.descend (.obj members) violation.keyword))
    (hread : members.has violation.keyword = true ∨
      violation.keyword ∈ newerDependencies ∧ members.has "dependencies" = true) :
    options.Placed root node violation := by
  cases hget : members.get? violation.keyword with
  | some value =>
    refine .keyword hpath hnode hget ?_
    rw [hfollow, Pointer.descend, hget]
  | none =>
    have hmissing : ¬ members.has violation.keyword = true := by
      rw [Members.has, hget]
      exact Bool.false_ne_true
    obtain ⟨hnewer, holder⟩ := hread.resolve_left hmissing
    refine .renamed hnewer hpath hnode holder ?_
    rw [hfollow, Pointer.descend, hget]

/--
The schema path of a violation leads, in the document that holds the violated schema object, to the
value of the keyword that is reported, and to the schema itself where that is false. Only what the
older keyword for dependencies asks is reported at a newer keyword, and where the schema object does
not have that one the path leads nowhere.
-/
theorem schema_paths_lead {options : CompileOptions} {document : Json} {schema : CompiledSchema}
    (hcompile : (runCompile options document).result = .ok schema)
    (hsources : ∀ key content, options.source? document key = some content → content.Pointable)
    {evaluation : EvaluationOptions} {instance_ : Json} {violations : Violations}
    (hvalidate : schema.validate evaluation instance_ = .ok violations) {violation : Violation}
    (hmem : violation ∈ violations) :
    ∃ there node, schema.Reaches (.root instance_) there ∧
      schema.Source evaluation there node violation ∧ options.Placed document node violation := by
  obtain ⟨c, hc, rfl⟩ := finished_of_result hcompile
  obtain ⟨there, found, hreach, hsource⟩ := CompiledSchema.source_of_validate hvalidate hmem
  refine ⟨there, found, hreach, hsource, ?_⟩
  obtain ⟨site, value, node, hbuilt, rfl⟩ := hc.built_of_node? hsource.node?
  obtain ⟨content, tokens, hcontent, hkey, hlocation, hresolve⟩ := hc.resolve_built hsources hbuilt
  have hreading := hbuilt.reading c (Compilation.Extends.refl c)
  have hplace : options.follow? document node.location = some (.ok value) := by
    rw [hlocation, options.follow?_locationOf document hkey, hcontent, Option.map_some,
      Pointer.follow_ofTokens, hresolve]
  rcases hsource.raises.reported with ⟨hboolean, hkeyword, hpath⟩ | ⟨hboolean, hhas, hpath⟩
  · cases value with
    | bool b =>
      rw [show node = _ from hreading] at hboolean
      obtain rfl := Option.some.inj hboolean
      exact .refused hkeyword hpath hplace
    | obj members =>
      have hnone : node.boolean = none := SchemaReading.boolean hreading
      exact absurd (hnone.symm.trans hboolean) (by simp)
    | _ => exact hreading.elim
  · cases value with
    | bool b =>
      rw [show node = _ from hreading] at hboolean
      cases hboolean
    | obj members =>
      have hread : SchemaReading c site members node := hreading
      refine CompileOptions.Placed.of_reading hplace hpath ?_ (hread.has_of_present hhas)
      rw [hpath]
      exact CompileOptions.follow?_keywordPath hcontent hkey hlocation hresolve
        (hread.mem_assertionKeywords hhas)
    | _ => exact hreading.elim

def olderDocument : Json :=
  .obj [("properties", .obj [("a", .obj [("$ref", .str "http://x/n#/$defs/n")])]),
    ("dependencies", .obj [("a", .bool false)])]

def olderOptions : CompileOptions where
  maxDepth := 10
  strict := false
  registry := [("http://x/n", .obj [("$defs", .obj [("n", .obj [("minimum", .int 1)])])])]

/-- One path leads into the other document, and one leads nowhere. -/
theorem olderDocument_reported : ∃ schema violations,
    (runCompile olderOptions olderDocument).result = .ok schema ∧
      schema.validate ⟨10, false⟩ (.obj [("a", .int 0)]) = .ok violations ∧
      violations.map (fun violation => (violation.keyword, violation.schemaPath)) =
        [("minimum", "http://x/n#/$defs/n/minimum"), ("dependentSchemas", "#/dependentSchemas")] ∧
      olderOptions.follow? olderDocument "http://x/n#/$defs/n/minimum" = some (.ok (.int 1)) ∧
      olderOptions.follow? olderDocument "#/dependentSchemas" =
        some (.error (.nameNotFound "dependentSchemas")) ∧
      ∀ violation ∈ violations, ∃ there node,
        schema.Reaches (.root (.obj [("a", .int 0)])) there ∧
          schema.Source ⟨10, false⟩ there node violation ∧
            olderOptions.Placed olderDocument node violation := by
  have hrun : (runCompile olderOptions olderDocument).result.toOption.bind (fun schema =>
      (schema.validate ⟨10, false⟩ (.obj [("a", .int 0)])).toOption.map fun violations =>
        violations.map fun violation => (violation.keyword, violation.schemaPath)) =
      some [("minimum", "http://x/n#/$defs/n/minimum"),
        ("dependentSchemas", "#/dependentSchemas")] := by
    decide +kernel
  simp only [Option.bind_eq_some_iff, Option.map_eq_some_iff, Except.toOption_eq_some] at hrun
  obtain ⟨schema, hschema, violations, hvalidate, hfound⟩ := hrun
  have hsources : ∀ key content, olderOptions.source? olderDocument key = some content →
      content.Pointable := by
    intro key content hcontent
    unfold CompileOptions.source? at hcontent
    split at hcontent
    case isTrue =>
      cases hcontent
      exact Json.pointable_of_size (by decide +kernel) (by decide +kernel)
    case isFalse =>
      obtain ⟨-, rfl⟩ := Prod.mk.inj (List.mem_singleton.mp (Members.mem_of_get? hcontent))
      exact Json.pointable_of_size (by decide +kernel) (by decide +kernel)
  exact ⟨schema, violations, hschema, hvalidate, hfound, rfl, rfl,
    fun violation hmem => schema_paths_lead hschema hsources hvalidate hmem⟩

end JsonSchema

import JsonSchema.Proofs.Evaluation.Verdict
import JsonSchema.Proofs.Interpreter.Objects
import JsonSchema.Proofs.Schema.Local

/-!
# A compiled schema does what its document says

Every node stands for the value at its place of the document. By induction on how many schemas lie
inside each other, the node asks of a value what the interpreter asks by the schema at this place.
-/

namespace JsonSchema

open CompileM Compilation Interpreter

/-! ## What the interpreter follows -/

/--
Each reference of a node points inside the document, which has no other base, and no schema object
of a node names a property in an older and in a newer keyword for dependencies.
-/
structure Interpretable (document : Json) (schema : CompiledSchema) : Prop where
  wellFormed : document.isWellFormed = true
  identifier : document.member? "$id" = none
  refs : ∀ id node, schema.node? id = some node → ∀ ref ∈ node.ref,
    ∃ fragment, PointerFragment ref fragment
  triggers : ∀ id node tokens members, schema.node? id = some node →
    node.location = locationOf "" (Pointer.ofTokens tokens) → document.At tokens (.obj members) →
    NamesTriggersOnce members

namespace Compilation

variable {options : CompileOptions} {root : Json} {c : Compilation} {id : NodeId} {site : Site}
  {value inner inner' : Json} {node : SchemaNode} {pointer pointer' key : String}
  {sat : NodeId → Json → Prop} {apply : Json → Json → Bool}

theorem Loaded.stands_root (h : c.Loaded options root) (hstands : c.Stands "" pointer inner) :
    ∃ tokens, pointer = Pointer.ofTokens tokens ∧ root.At tokens inner := by
  obtain ⟨document, tokens, hdocument, hpointer, hat⟩ := hstands
  exact ⟨tokens, hpointer, h.root_content hdocument ▸ hat⟩

theorem Loaded.stands_unique (h : c.Loaded options root) (hroot : root.isWellFormed = true)
    (hstands : c.Stands "" pointer inner) (hstands' : c.Stands "" pointer inner') :
    inner = inner' := by
  have ⟨document, _, hdocument, _, _⟩ := hstands
  rw [← h.root_content hdocument] at hroot
  exact Compilation.stands_unique hdocument hroot hstands hstands'

namespace Finished

theorem built_of_nodeOf (h : Finished options root c) (hroot : root.isWellFormed = true)
    (hnode : c.NodeOf "" pointer inner id) :
    ∃ site node, c.Built id site inner node ∧ site.key = "" ∧ site.pointer = pointer := by
  obtain ⟨document, hdocument, rfl⟩ := h.root_document
  obtain ⟨site, node, hbuilt, -, -, hkey, hpointer⟩ :=
    h.sound.built_of_nodeOf hdocument hroot hnode
  exact ⟨site, node, hbuilt, hkey, hpointer⟩

theorem nodeOf_unique (h : Finished options root c) (hroot : root.isWellFormed = true)
    (hnode : c.NodeOf "" pointer inner id) (hnode' : c.NodeOf "" pointer' inner' id) :
    inner = inner' := by
  have hlocated := hnode.located
  rw [Located, hnode'.located, Option.some.injEq] at hlocated
  obtain ⟨-, rfl⟩ := locationOf_inj (by simp) (by simp) hlocated
  exact h.sound.loaded.stands_unique hroot hnode.stands hnode'.stands

theorem nodeOf_root (h : Finished options root c) : c.NodeOf "" "" root 0 := by
  obtain ⟨document, hdocument, rfl⟩ := h.root_document
  exact ⟨h.root, CompileM.stands_root hdocument⟩

theorem baseOf_root (h : Finished options root c) {document : SourceDocument}
    (hdocument : Members.get? c.documents "" = some document)
    (hidentifier : root.member? "$id" = none) : c.baseOf "" = "" := by
  obtain ⟨declared, hdeclared, hbase⟩ := (h.sound.loaded.source hdocument).base
  rw [h.sound.loaded.root_content hdocument, declaredBase, hidentifier] at hdeclared
  cases hdeclared
  simp [baseOf_eq hdocument, hbase, documentBase]

theorem target_of_pointer (h : Finished options root c) (hroot : root.isWellFormed = true)
    (hidentifier : root.member? "$id" = none) {document : SourceDocument} {ref fragment : String}
    {target : NodeId} (hdocument : Members.get? c.documents "" = some document)
    (hfragment : PointerFragment ref fragment) (hanswers : c.Answers "" ref target) :
    ∃ pointer inner, root.target? ref = some inner ∧ c.NodeOf "" pointer inner target := by
  obtain ⟨uri, found, key, hlocate, hmeans, hpoints⟩ := hanswers
  have hbase := h.baseOf_root hdocument hidentifier
  obtain ⟨uri', hlocate', hown, hanchor⟩ := hfragment.locate (.inl rfl)
  rw [hbase, hlocate'] at hlocate
  cases hlocate
  rw [Means, hbase, if_pos hown] at hmeans
  subst hmeans
  rw [PointsTo, hanchor, if_neg Bool.false_ne_true] at hpoints
  obtain ⟨tokens, hsplit, hlocated⟩ := hpoints
  obtain ⟨site, inner, node, hbuilt, hkey, hpointer⟩ :=
    h.built_of_located (Members.mem_of_get? hdocument) hlocated
  have hnode := hbuilt.nodeOf
  rw [hkey, hpointer] at hnode
  obtain ⟨tokens', heq, hat⟩ := h.sound.loaded.stands_root hnode.stands
  rw [← Pointer.ofTokens_injective heq] at hat
  refine ⟨_, inner, ?_, hnode⟩
  rw [Json.target?, hfragment.spelled, hsplit]
  exact hat.walk? hroot

/-! ## One schema -/

theorem refAllows_iff (h : Finished options root c) (hdocument : Interpretable root c.freeze)
    (hagrees : Agrees c "" sat apply) {schema : Members Json}
    (hbuilt : c.Built id site (.obj schema) node) (hkey : site.key = "") :
    refAllows apply schema root value = true ↔ ∀ target ∈ c.targets.lookup id, sat target value := by
  have hread := SchemaReading.ref (hbuilt.reading c (Extends.refl c))
  rw [refAllows, asksText, asks_iff]
  cases href : node.ref with
  | none =>
    rw [h.lookup_of_none hbuilt href]
    have hnone : schema.get? "$ref" = none := by
      rw [href] at hread
      unfold readRef at hread
      split at hread <;> first | assumption | cases hread
    simp [hnone]
  | some ref =>
    obtain ⟨target, htarget, hanswers⟩ := h.lookup_of_ref hbuilt href
    obtain ⟨document, hget, -⟩ := hbuilt.declaration
    obtain ⟨fragment, hfragment⟩ := hdocument.refs id _ (h.node?_of_built hbuilt) ref href
    rw [hkey] at hanswers hget
    obtain ⟨pointer, inner, hinner, hnode⟩ := h.target_of_pointer hdocument.wellFormed
      hdocument.identifier hget hfragment hanswers
    obtain ⟨members, heq, hsome⟩ := hbuilt.ref_eq href
    cases heq
    simp [hsome, htarget, onText, hinner, hagrees pointer inner target hnode value]

theorem declaration_root (h : Finished options root c) (hbuilt : c.Built id site inner node)
    (hkey : site.key = "") :
    site.declaration = DraftDeclaration.ofJson? (root.member? "$schema") := by
  obtain ⟨document, hget, hdeclaration⟩ := hbuilt.declaration
  rw [hkey] at hget
  have hsource := h.sound.loaded.source hget
  rw [← hdeclaration, hsource.declaration, h.sound.loaded.root_content hget]

theorem triggers_nodup {schema : Members Json} (hschema : (Json.obj schema).isWellFormed = true) :
    (triggers schema "dependencies").Nodup := by
  unfold triggers Members.membersAt
  split
  case h_1 members hget =>
    exact Json.isWellFormed_names (Json.isWellFormed_member hschema (Members.mem_of_get? hget))
  case h_2 => exact List.nodup_nil

theorem typedAllows_iff (h : Finished options root c) (hdocument : Interpretable root c.freeze)
    {assertFormats : Bool} {schema : Members Json} (hagrees : Agrees c site.key sat apply)
    (hbuilt : c.Built id site (.obj schema) node) (hkey : site.key = "") :
    typedAllows apply site.declaration schema assertFormats value = true ↔
      node.TypedHolds assertFormats sat value := by
  have hreading : SchemaReading c site schema node := hbuilt.reading c (Extends.refl c)
  cases value with
  | num n => exact numberAllows_iff hreading.number
  | str s => exact stringAllows_iff hreading.string
  | arr values => exact arrayAllows_iff hagrees hreading.array
  | obj object =>
    obtain ⟨tokens, hpointer, hat⟩ := h.sound.loaded.stands_root (hkey ▸ hbuilt.nodeOf.stands)
    refine objectAllows_iff hagrees hreading.object
      (triggers_nodup (hat.isWellFormed hdocument.wellFormed)) ?_
    refine hdocument.triggers id _ tokens schema (h.node?_of_built hbuilt) ?_ hat
    exact hbuilt.location.trans (by rw [Site.location, hkey, hpointer])
  | _ => simp [typedAllows, SchemaNode.TypedHolds]

/-- A node asks what the interpreter asks by its schema, when all other nodes do. -/
theorem holds_iff (h : Finished options root c) (hdocument : Interpretable root c.freeze)
    {assertFormats : Bool} {guess : Json → Json → Bool} {fuel : Nat}
    (hagrees : Agrees c "" sat (allows root assertFormats guess fuel))
    (hbuilt : c.Built id site inner node) (hkey : site.key = "") :
    SchemaNode.Holds { node with refTarget := c.targets.lookup id } assertFormats sat value ↔
      allows root assertFormats guess (fuel + 1) inner value = true := by
  have hreading := hbuilt.reading c (Extends.refl c)
  cases inner with
  | bool b =>
    rw [show node = _ from hreading]
    exact Iff.rfl
  | obj schema =>
    replace hreading : SchemaReading c site schema node := hreading
    have hsite : Agrees c site.key sat (allows root assertFormats guess fuel) := hkey ▸ hagrees
    simp only [allows, Bool.and_eq_true, ← h.declaration_root hbuilt hkey,
      h.refAllows_iff hdocument hagrees hbuilt hkey, valueAllows_iff hreading.value,
      h.typedAllows_iff hdocument hsite hbuilt hkey,
      compositionAllows_iff hsite hreading.composition, SchemaNode.Holds, hreading.boolean,
      and_assoc]
    exact Iff.rfl
  | _ => exact hreading.elim

end Finished

end Compilation

/-! ## Whole schemas -/

open CompiledSchema in
/-- What finitely many unfoldings ask is what the interpreter asks with as much fuel. -/
theorem unfolded_iff_allows {options : CompileOptions} {root : Json} {c : Compilation}
    (h : Finished options root c) (hdocument : Interpretable root c.freeze) (assertFormats : Bool)
    (guess : Json → Json → Bool) (depth : Nat) :
    Agrees c "" (c.freeze.unfolded assertFormats (fun id value =>
        ∃ pointer inner, c.NodeOf "" pointer inner id ∧ guess inner value = true) depth)
      (allows root assertFormats guess depth) := by
  -- The guess is asked of the schema that the node stands for, and a node stands for only one.
  induction depth with
  | zero =>
    intro pointer inner id hnode value
    constructor
    · rintro ⟨pointer', inner', hnode', hguess⟩
      rwa [h.nodeOf_unique hdocument.wellFormed hnode hnode']
    · exact fun hguess => ⟨pointer, inner, hnode, hguess⟩
  | succ depth ih =>
    intro pointer inner id hnode value
    obtain ⟨site, node, hbuilt, hkey, -⟩ := h.built_of_nodeOf hdocument.wellFormed hnode
    rw [← h.holds_iff hdocument ih hbuilt hkey, unfolded, Unfolds, h.node?_of_built hbuilt]
    simp

/--
The verdict of a compiled schema is that of the interpreter on the document itself, with any fuel
beyond the depth that the validation may reach and whatever is believed below it.
-/
theorem validate_eq_interpretation {options : CompileOptions} {evaluation : EvaluationOptions}
    {document value : Json} {schema : CompiledSchema} {violations : Violations}
    (hcompile : (runCompile options document).result = .ok schema)
    (hdocument : Interpretable document schema)
    (hvalidate : schema.validate evaluation value = .ok violations)
    (guess : Json → Json → Bool) {fuel : Nat} (hfuel : (evaluation.maxDepth + 1).toNat < fuel) :
    Interpreter.allows document evaluation.assertFormats guess fuel document value =
      violations.isEmpty := by
  obtain ⟨c, hc, rfl⟩ := finished_of_result hcompile
  obtain ⟨more, rfl⟩ := Nat.exists_eq_add_of_le hfuel
  have hagrees := unfolded_iff_allows hc hdocument evaluation.assertFormats guess
    ((evaluation.maxDepth + 1).toNat + 1 + more) _ _ _ hc.nodeOf_root value
  -- What lies below the depth of the validation is its base, and the verdict holds for each base.
  rw [CompiledSchema.unfolded_add] at hagrees
  rw [Bool.eq_iff_iff, List.isEmpty_iff]
  exact ((CompiledSchema.evaluate_decides_unfolded _ _ _ _ _ _ hvalidate).trans hagrees).symm

def chainDocument : Json :=
  .obj [("dependencies", .obj [("x", .arr [.str "y"])]),
    ("properties", .obj [("child", .obj [("$ref", .str "#")])])]

theorem chainDocument_interpretable {schema : CompiledSchema}
    (hnodes : schema.nodes.toList.map (fun node => (node.location, node.ref)) =
      [("#", none), ("#/properties/child", some "#")]) : Interpretable chainDocument schema := by
  have hmem : ∀ id node, schema.node? id = some node →
      (node.location, node.ref) ∈ [("#", none), ("#/properties/child", some "#")] := by
    intro id node hnode
    rw [← hnodes]
    refine List.mem_map.mpr ⟨node, ?_, rfl⟩
    exact Array.mem_toList_iff.mpr (Array.mem_of_getElem? hnode)
  refine ⟨by decide +kernel, rfl, fun id node hnode ref href => ?_, ?_⟩
  · obtain ⟨-, hnone⟩ | ⟨-, hsome⟩ : (node.location = "#" ∧ node.ref = none) ∨
        (node.location = "#/properties/child" ∧ node.ref = some "#") := by
      simpa using hmem id node hnode
    · rw [hnone] at href
      cases href
    · rw [hsome] at href
      cases href
      exact ⟨"", rfl, .inl rfl, by simp⟩
  · intro id node tokens members hnode hlocation hat
    have hwalk := hat.walk? (by decide +kernel)
    have hplace : ∀ place, node.location = locationOf "" (Pointer.ofTokens place) →
        tokens = place := by
      intro place hsame
      have hpointers := (locationOf_inj (by simp) (by simp) (hlocation.symm.trans hsame)).2
      exact Pointer.ofTokens_injective hpointers
    obtain ⟨hroot, -⟩ | ⟨hchild, -⟩ : (node.location = "#" ∧ node.ref = none) ∨
        (node.location = "#/properties/child" ∧ node.ref = some "#") := by
      simpa using hmem id node hnode
    · rw [hplace [] (hroot.trans (by decide +kernel))] at hwalk
      cases hwalk
      unfold NamesTriggersOnce
      decide +kernel
    · rw [hplace ["properties", "child"] (hchild.trans (by decide +kernel))] at hwalk
      cases hwalk
      unfold NamesTriggersOnce
      decide +kernel

/-- The chain that lacks a `y` in its depth is refused, and the complete one is allowed. -/
theorem chainDocument_interpreted : ∃ schema,
    (runCompile ⟨10, false, []⟩ chainDocument).result = .ok schema ∧
      (∀ guess, Interpreter.allows chainDocument false guess 12 chainDocument
        (.obj [("child", .obj [("x", .null)])]) = false) ∧
      ∀ guess, Interpreter.allows chainDocument false guess 12 chainDocument
        (.obj [("child", .obj [("x", .null), ("y", .null)])]) = true := by
  have hrun : (runCompile ⟨10, false, []⟩ chainDocument).result.toOption.map (fun schema =>
      (schema.nodes.toList.map fun node => (node.location, node.ref),
        (schema.validate ⟨10, false⟩ (.obj [("child", .obj [("x", .null)])])).toOption.map
          (·.isEmpty),
        (schema.validate ⟨10, false⟩ (.obj [("child", .obj [("x", .null), ("y", .null)])])).toOption.map
          (·.isEmpty))) =
      some ([("#", none), ("#/properties/child", some "#")], some false, some true) := by
    decide +kernel
  simp only [Option.map_eq_some_iff, Prod.mk.injEq, Except.toOption_eq_some] at hrun
  obtain ⟨schema, hschema, hnodes, ⟨refused, hrefused, hfalse⟩, allowed, hallowed, htrue⟩ := hrun
  have hdocument := chainDocument_interpretable hnodes
  refine ⟨schema, hschema, fun guess => ?_, fun guess => ?_⟩
  · exact (validate_eq_interpretation hschema hdocument hrefused guess (by decide)).trans hfalse
  · exact (validate_eq_interpretation hschema hdocument hallowed guess (by decide)).trans htrue

end JsonSchema

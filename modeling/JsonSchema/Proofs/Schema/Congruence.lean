import JsonSchema.Proofs.Schema.Keywords
import JsonSchema.Proofs.Schema.Timeless

/-!
# One schema object under two drafts

A relation between steps that survives putting them together holds between the two readings of a
schema object as soon as it holds between the visits of its subschemas. The drafts of the two may
differ where the object is timeless, and so may what the object says about them.
-/

namespace JsonSchema.CompileM

/-- Steps that are related stay so however they are put together. -/
structure Congruence (P : (α : Type) → CompileM α → CompileM α → Prop) : Prop where
  pure {α : Type} (a : α) : P α (pure a) (pure a)
  throw {α : Type} (e : CompileFault) : P α (throw e) (throw e)
  warn (message : String) : P Unit (warn message) (warn message)
  bind {α β : Type} {x y : CompileM α} {f g : α → CompileM β} (h : P α x y)
    (hnext : ∀ a, P β (f a) (g a)) : P β (x >>= f) (y >>= g)

namespace Congruence

variable {α β ε : Type} {P : (α : Type) → CompileM α → CompileM α → Prop} (hP : Congruence P)

include hP

theorem lift (fault : ε → CompileFault) (outcome : Except ε α) :
    P α (lift fault outcome) (CompileM.lift fault outcome) := by
  cases outcome with
  | ok a => exact hP.pure a
  | error e => exact hP.throw _

theorem lift_bind {fault : ε → CompileFault} {outcome : Except ε α} {f g : α → CompileM β}
    (h : ∀ a, outcome = .ok a → P β (f a) (g a)) :
    P β (CompileM.lift fault outcome >>= f) (CompileM.lift fault outcome >>= g) := by
  cases outcome with
  | ok a =>
    rw [CompileM.lift, pure_bind, pure_bind]
    exact h a rfl
  | error e => exact hP.throw _

theorem refuse_bind {site : Site} {keyword : String} {problem : KeywordProblem}
    {f g : α → CompileM β} :
    P β (refuse site keyword problem >>= f) (refuse site keyword problem >>= g) :=
  hP.throw (.badKeyword site.location keyword problem)

/-! ## Keywords that hold schemas -/

variable {compile compile' : CompileChild} {site : Site} {declaration : DraftDeclaration}
  {schema schema' : Members Json} {keyword : String}

def Visited (P : (α : Type) → CompileM α → CompileM α → Prop) (compile compile' : CompileChild)
    (site : Site) (declaration : DraftDeclaration) (schema : Members Json) : Prop :=
  ∀ child, (Json.obj schema).Leads (child.keyword :: child.tokens) child.value →
    P NodeId (compile site child) (compile' { site with declaration } child)

variable (hcompile : Visited P compile compile' site declaration schema)

include hcompile

theorem compileItems (index : Nat) (items : List Json)
    (hleads : ∀ entry ∈ items.zipIdx index,
      (Json.obj schema).Leads [keyword, natText entry.2] entry.1) :
    P _ (compileItems compile site keyword index items)
      (compileItems compile' { site with declaration } keyword index items) := by
  induction items generalizing index with
  | nil => exact hP.pure []
  | cons value rest ih =>
    rw [List.zipIdx_cons, List.forall_mem_cons] at hleads
    exact hP.bind (hcompile ⟨value, keyword, [natText index]⟩ hleads.1) fun id =>
      hP.bind (ih (index + 1) hleads.2) fun ids => hP.pure (id :: ids)

theorem compileArrayItems {items : List Json} (hget : schema.get? keyword = some (.arr items)) :
    P _ (CompileM.compileItems compile site keyword 0 items)
      (CompileM.compileItems compile' { site with declaration } keyword 0 items) := by
  refine compileItems hP hcompile 0 items fun entry hentry => ?_
  exact leads_item hget (List.mk_mem_zipIdx_iff_getElem?.mp hentry)

theorem compileMembers (members : Members Json)
    (hleads : ∀ member ∈ members, (Json.obj schema).Leads [keyword, member.1] member.2) :
    P _ (compileMembers compile site keyword members)
      (compileMembers compile' { site with declaration } keyword members) := by
  induction members with
  | nil => exact hP.pure []
  | cons member rest ih =>
    rw [List.forall_mem_cons] at hleads
    exact hP.bind (hcompile ⟨member.2, keyword, [member.1]⟩ hleads.1) fun id =>
      hP.bind (ih hleads.2) fun ids => hP.pure ((member.1, id) :: ids)

theorem compilePatternMembers (members : Members Json)
    (hleads : ∀ member ∈ members,
      (Json.obj schema).Leads ["patternProperties", member.1] member.2) :
    P _ (compilePatternMembers compile site members)
      (compilePatternMembers compile' { site with declaration } members) := by
  induction members with
  | nil => exact hP.pure []
  | cons member rest ih =>
    rw [List.forall_mem_cons] at hleads
    exact hP.bind (hP.lift ..) fun pattern =>
      hP.bind (hcompile ⟨member.2, "patternProperties", [member.1]⟩ hleads.1) fun node =>
      hP.bind (ih hleads.2) fun children => hP.pure (⟨pattern, node⟩ :: children)

theorem compileOlderDependencies (done : Dependencies) (members : Members Json)
    (hleads : ∀ member ∈ members, (Json.obj schema).Leads ["dependencies", member.1] member.2) :
    P _ (compileOlderDependencies compile site done members)
      (compileOlderDependencies compile' { site with declaration } done members) := by
  induction members generalizing done with
  | nil => exact hP.pure done
  | cons member rest ih =>
    rw [List.forall_mem_cons] at hleads
    obtain ⟨name, value⟩ := member
    cases value with
    | arr names => exact hP.bind (hP.lift ..) fun required => ih _ hleads.2
    | _ => exact hP.bind (hcompile ⟨_, "dependencies", [name]⟩ hleads.1) fun id => ih _ hleads.2

variable (hschema : schema'.undeclared = schema.undeclared)

include hschema

theorem childOf (hne : keyword ≠ "$schema") :
    P _ (childOf compile site schema keyword)
      (childOf compile' { site with declaration } schema' keyword) := by
  unfold CompileM.childOf
  rw [Members.get?_of_undeclared hschema hne]
  cases hget : schema.get? keyword with
  | none => exact hP.pure none
  | some value =>
    exact hP.bind (hcompile ⟨value, keyword, []⟩ (leads_keyword hget)) fun id => hP.pure (some id)

theorem childList (hne : keyword ≠ "$schema") :
    P _ (childList compile site schema keyword)
      (childList compile' { site with declaration } schema' keyword) := by
  unfold CompileM.childList
  rw [Members.get?_of_undeclared hschema hne]
  split
  case h_1 => exact hP.pure []
  case h_2 item items hget => exact compileArrayItems hP hcompile hget
  case h_3 => exact hP.throw _

theorem childMembers (hne : keyword ≠ "$schema") :
    P _ (childMembers compile site schema keyword)
      (childMembers compile' { site with declaration } schema' keyword) := by
  unfold CompileM.childMembers
  rw [object_of_undeclared hschema hne]
  refine hP.lift_bind fun members hmembers => ?_
  exact compileMembers hP hcompile members fun member hmember =>
    leads_member (Members.object_eq_ok hmembers ▸ hmember)

/-! ## Arrays -/

variable (hdeclaration : declaration = site.declaration ∨ schema.Timeless)

include hdeclaration

theorem compileOlderItems {items : List Json} (hget : schema.get? "items" = some (.arr items)) :
    P _ (compileOlderItems compile site schema items)
      (compileOlderItems compile' { site with declaration } schema' items) := by
  obtain rfl : declaration = site.declaration :=
    hdeclaration.resolve_right fun htimeless => htimeless.items items hget
  have hfirst := compileArrayItems hP hcompile hget
  unfold CompileM.compileOlderItems Members.has
  dsimp only
  rw [Members.get?_of_undeclared hschema (by decide),
    Members.get?_of_undeclared hschema (by decide)]
  split
  · exact hP.refuse_bind
  split
  · exact hP.refuse_bind
  refine hP.bind hfirst fun first => ?_
  cases hmore : schema.get? "additionalItems" with
  | none => exact hP.pure _
  | some value =>
    exact hP.bind (hcompile ⟨value, "additionalItems", []⟩ (leads_keyword hmore)) fun rest =>
      hP.pure _

theorem compileLatestItems :
    P _ (compileLatestItems compile site schema)
      (compileLatestItems compile' { site with declaration } schema') := by
  have hrest : P _ (CompileM.childOf compile site schema "items")
      (CompileM.childOf compile' { site with declaration } schema' "items") :=
    childOf hP hcompile hschema (by decide)
  unfold CompileM.compileLatestItems
  dsimp only
  rcases hdeclaration with rfl | htimeless
  · split
    · exact hP.bind (childList hP hcompile hschema (by decide)) fun first =>
        hP.bind hrest fun rest => hP.pure _
    · exact hP.bind (hP.pure []) fun first => hP.bind hrest fun rest => hP.pure _
  · -- Without the keyword the list is empty, whether or not the draft knows it.
    unfold CompileM.childList
    rw [Members.get?_of_undeclared hschema (by decide), htimeless.prefixItems, ite_self, ite_self]
    exact hP.bind (hP.pure []) fun first => hP.bind hrest fun rest => hP.pure _

theorem compileItemSchemas :
    P _ (compileItemSchemas compile site schema)
      (compileItemSchemas compile' { site with declaration } schema') := by
  unfold CompileM.compileItemSchemas
  rw [Members.get?_of_undeclared hschema (by decide)]
  split
  case h_1 items hget => exact compileOlderItems hP hcompile hschema hdeclaration hget
  case h_2 => exact compileLatestItems hP hcompile hschema hdeclaration

theorem compileArray :
    P _ (compileArray compile site schema)
      (compileArray compile' { site with declaration } schema') := by
  unfold CompileM.compileArray Members.bool
  simp (disch := decide) only [count?_of_undeclared hschema, Members.get?_of_undeclared hschema]
  exact hP.bind (hP.lift ..) fun _ => hP.bind (hP.lift ..) fun _ => hP.bind (hP.lift ..) fun _ =>
    hP.bind (compileItemSchemas hP hcompile hschema hdeclaration) fun _ =>
    hP.bind (childOf hP hcompile hschema (by decide)) fun _ => hP.bind (hP.lift ..) fun _ =>
    hP.bind (hP.lift ..) fun _ => hP.pure _

omit hdeclaration

/-! ## Objects and compositions -/

theorem compileDependencies :
    P _ (compileDependencies compile site schema)
      (compileDependencies compile' { site with declaration } schema') := by
  unfold CompileM.compileDependencies
  simp (disch := decide) only [object_of_undeclared hschema]
  refine hP.bind (hP.lift ..) fun _ => hP.bind (hP.lift ..) fun names =>
    hP.bind (childMembers hP hcompile hschema (by decide)) fun schemas =>
    hP.lift_bind fun older holder => ?_
  exact compileOlderDependencies hP hcompile _ older fun member hmember =>
    leads_member (Members.object_eq_ok holder ▸ hmember)

theorem compileObject :
    P _ (compileObject compile site schema)
      (compileObject compile' { site with declaration } schema') := by
  unfold CompileM.compileObject
  simp (disch := decide) only [object_of_undeclared hschema, count?_of_undeclared hschema,
    Members.get?_of_undeclared hschema]
  refine hP.bind (hP.lift ..) fun _ =>
    hP.bind (childMembers hP hcompile hschema (by decide)) fun _ =>
    hP.lift_bind fun patterns hpatterns => ?_
  have hmatched := compilePatternMembers hP hcompile patterns fun member hmember =>
    leads_member (Members.object_eq_ok hpatterns ▸ hmember)
  exact hP.bind hmatched fun _ => hP.bind (childOf hP hcompile hschema (by decide)) fun _ =>
    hP.bind (hP.lift ..) fun _ => hP.bind (hP.lift ..) fun _ =>
    hP.bind (childOf hP hcompile hschema (by decide)) fun _ =>
    hP.bind (compileDependencies hP hcompile hschema) fun _ => hP.pure _

theorem compileComposition :
    P _ (compileComposition compile site schema)
      (compileComposition compile' { site with declaration } schema') := by
  have hlist {keyword : String} (hne : keyword ≠ "$schema") :=
    childList hP hcompile hschema hne
  have hchild {keyword : String} (hne : keyword ≠ "$schema") :=
    childOf hP hcompile hschema hne
  exact hP.bind (hlist (by decide)) fun _ => hP.bind (hlist (by decide)) fun _ =>
    hP.bind (hlist (by decide)) fun _ => hP.bind (hchild (by decide)) fun _ =>
    hP.bind (hchild (by decide)) fun _ => hP.bind (hchild (by decide)) fun _ =>
    hP.bind (hchild (by decide)) fun _ => hP.pure _

/-! ## Whole schema objects -/

omit hcompile in
theorem warnUnknown (options : CompileOptions) :
    P _ (warnUnknown options site schema)
      (warnUnknown options { site with declaration } schema') := by
  unfold CompileM.warnUnknown
  rw [← Members.unknown_undeclared schema', hschema, Members.unknown_undeclared]
  induction schema.names.filter isUnknownKeyword with
  | nil => exact hP.pure _
  | cons keyword rest ih =>
    refine hP.bind ?_ fun _ => ih
    split
    · exact hP.warn _
    · exact hP.pure _

include hdeclaration

theorem compileKeywords (options : CompileOptions) (id : NodeId) (ref : Option String)
    {f g : SchemaNode → CompileM β}
    (hnext : ∀ node : SchemaNode, node.id = id →
      P β (f { node with annotations := annotationsOf schema })
        (g { node with annotations := annotationsOf schema' })) :
    P β (compileKeywords options compile site id ref schema >>= f)
      (compileKeywords options compile' { site with declaration } id ref schema' >>= g) := by
  have hnumber : readNumberKeywords declaration schema' =
      readNumberKeywords site.declaration schema := by
    rw [readNumberKeywords_of_undeclared hschema]
    rcases hdeclaration with rfl | htimeless
    · rfl
    · exact readNumberKeywords_timeless htimeless _ _
  unfold CompileM.compileKeywords
  simp only [readValueKeywords_of_undeclared hschema, hnumber,
    readStringKeywords_of_undeclared hschema, bind_assoc, pure_bind]
  exact hP.bind (hP.lift ..) fun value => hP.bind (hP.lift ..) fun number =>
    hP.bind (hP.lift ..) fun string =>
    hP.bind (compileArray hP hcompile hschema hdeclaration) fun array =>
    hP.bind (compileObject hP hcompile hschema) fun object =>
    hP.bind (compileComposition hP hcompile hschema) fun composition =>
    hP.bind (childMembers hP hcompile hschema (by decide)) fun _ =>
    hP.bind (childMembers hP hcompile hschema (by decide)) fun _ =>
    hP.bind (warnUnknown hP hschema options) fun _ =>
    hnext {
      id, ref, value, number, string, array, object, composition
      location := site.location } rfl

end Congruence

end JsonSchema.CompileM

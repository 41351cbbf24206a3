import JsonSchema.Proofs.Evaluation.Place
import JsonSchema.Proofs.Schema.Queue
import JsonSchema.Proofs.Schema.Raise

/-!
# Where a keyword is at fault

A fault of a keyword names a schema object of a document that is taken in, and a member of it. A
subschema that is no schema is a fault of the object around it, at the keyword that leads to it.
-/

namespace JsonSchema

variable {schema : Members Json} {keyword : String} {value : Json}

/-! ## Readers -/

theorem ends_mapM {ε α : Type} {fair : ε → Prop} {o : Option Json} {read : Json → Except ε α}
    (h : ∀ value, o = some value → Except.Ends (fun _ => True) fair (read value)) :
    Except.Ends (fun _ => True) fair (o.mapM read) := by
  cases o with
  | none => exact .ok trivial
  | some value => exact Except.Ends.map (h value rfl) fun _ _ => trivial

namespace Members

theorem has_of_get? (h : schema.get? keyword = some value) : schema.has keyword = true := by
  rw [has, h]
  rfl

/-- What is read from the schema object fails at a keyword that is in it. -/
abbrev Blamed {α : Type} (schema : Members Json) (outcome : Except KeywordFault α) : Prop :=
  Except.Ends (fun _ => True) (fun fault => schema.has fault.1 = true) outcome

namespace Blamed

variable {α β : Type}

theorem pure (a : α) : schema.Blamed (Pure.pure a : Except KeywordFault α) := .ok trivial

theorem bind {x : Except KeywordFault α} {f : α → Except KeywordFault β} (h : schema.Blamed x)
    (hf : ∀ a, schema.Blamed (f a)) : schema.Blamed (x >>= f) :=
  Except.Ends.bind h fun a _ => hf a

theorem number? (schema : Members Json) (keyword : String) :
    schema.Blamed (schema.number? keyword) := by
  unfold Members.number?
  split
  case h_1 | h_2 => exact .ok trivial
  case h_3 hget => exact .error (has_of_get? hget)

theorem count? (schema : Members Json) (keyword : String) :
    schema.Blamed (schema.count? keyword) := by
  unfold Members.count?
  split
  case h_1 => exact .ok trivial
  case h_2 hget => exact .ite (.ok trivial) (.error (has_of_get? hget))
  case h_3 hget => exact .error (has_of_get? hget)

theorem bool (schema : Members Json) (keyword : String) : schema.Blamed (schema.bool keyword) := by
  unfold Members.bool
  split
  case h_1 | h_2 => exact .ok trivial
  case h_3 hget => exact .error (has_of_get? hget)

theorem object (schema : Members Json) (keyword : String) :
    schema.Blamed (schema.object keyword) := by
  unfold Members.object
  split
  case h_1 | h_2 => exact .ok trivial
  case h_3 hget => exact .error (has_of_get? hget)

theorem stringList (h : schema.has keyword = true) (value : Json) :
    schema.Blamed (JsonSchema.stringList keyword value) := by
  unfold JsonSchema.stringList
  split
  case h_1 =>
    split
    · exact .ok trivial
    · exact .error h
  case h_2 => exact .error h

theorem readNameLists (h : schema.has keyword = true) (members : Members Json) :
    schema.Blamed (CompileM.readNameLists keyword members) := by
  induction members with
  | nil => exact pure []
  | cons member rest ih =>
    exact (stringList h member.2).bind fun names => ih.bind fun lists => pure _

theorem readTypes (h : schema.has "type" = true) (value : Json) :
    schema.Blamed (JsonSchema.readTypes value) := by
  unfold JsonSchema.readTypes
  dsimp only
  split
  · exact .error h
  · split
    · exact .ok trivial
    · exact .error h

theorem readValueKeywords (schema : Members Json) :
    schema.Blamed (JsonSchema.readValueKeywords schema) := by
  refine bind (ends_mapM fun value hget => readTypes (has_of_get? hget) value) fun types =>
    bind (ends_mapM fun value hget => ?_) fun options => pure _
  split
  · exact .ok trivial
  · exact .error (has_of_get? hget)

theorem readBound (declaration : DraftDeclaration) (schema : Members Json) (keyword : String)
    (inclusive : Option Number) :
    schema.Blamed (JsonSchema.readBound declaration schema keyword inclusive) := by
  unfold JsonSchema.readBound
  split
  case h_1 hget =>
    exact .ite (.error (has_of_get? hget)) (.ite (.ok trivial) (.ok trivial))
  case h_2 => exact Except.Ends.map (number? schema keyword) fun _ _ => trivial

theorem readNumberKeywords (declaration : DraftDeclaration) (schema : Members Json) :
    schema.Blamed (JsonSchema.readNumberKeywords declaration schema) := by
  refine (number? schema _).bind fun minimum => (number? schema _).bind fun maximum =>
    (readBound ..).bind fun low => (readBound ..).bind fun high => ?_
  have hstep : Except.Ends (fun step => step.isSome = true → schema.has "multipleOf" = true)
      (fun fault => schema.has fault.1 = true) (schema.number? "multipleOf") := by
    unfold Members.number?
    split
    case h_1 => exact .ok nofun
    case h_2 hget => exact .ok fun _ => has_of_get? hget
    case h_3 hget => exact .error (has_of_get? hget)
  refine Except.Ends.bind hstep fun step hhas => ?_
  cases step with
  | none => exact pure _
  | some step =>
    exact .ite (.error (hhas rfl)) (pure _)

theorem readRef (schema : Members Json) : schema.Blamed (JsonSchema.readRef schema) := by
  unfold JsonSchema.readRef
  split
  case h_1 | h_2 => exact .ok trivial
  case h_3 hget => exact .error (has_of_get? hget)

theorem readAnchors (schema : Members Json) : schema.Blamed (JsonSchema.readAnchors schema) := by
  have hanchor : schema.Blamed (readAnchor schema) := by
    unfold readAnchor
    split
    case h_1 | h_2 => exact .ok trivial
    case h_3 hget => exact .ite (.ok trivial) (.error (has_of_get? hget))
    case h_4 hget => exact .error (has_of_get? hget)
  exact Except.Ends.map hanchor fun _ _ => trivial

end Blamed

end Members

def CompileFault.keywordAt? : CompileFault → Option (String × String)
  | .badKeyword location keyword _ => some (location, keyword)
  | _ => none

namespace CompileM

open Compilation

variable {α β ε : Type} {options : CompileOptions} {site : Site} {key pointer : String}
  {fault : CompileFault} {compile : CompileChild} {c c' : Compilation}

/-! ## Faults and their places -/

/-- A fault of a keyword names a schema object in the value at a pointer, and a member of it. -/
def Blames (key pointer : String) (value : Json) (fault : CompileFault) : Prop :=
  ∀ location keyword, fault.keywordAt? = some (location, keyword) →
    ∃ tokens, ∃ schema : Members Json, value.Leads tokens (.obj schema) ∧
      location = locationOf key (Pointer.join pointer tokens) ∧ schema.has keyword = true

theorem Blames.own {problem : KeywordProblem} (h : schema.has keyword = true) :
    Blames site.key site.pointer (.obj schema) (.badKeyword site.location keyword problem) := by
  rintro _ _ ⟨⟩
  exact ⟨[], schema, .root, by rw [Pointer.join_nil]; rfl, h⟩

theorem Blames.inside {tokens : List String} {inner : Json} (hleads : value.Leads tokens inner)
    (h : Blames key (Pointer.join pointer tokens) inner fault) :
    Blames key pointer value fault := by
  intro location keyword heq
  obtain ⟨more, schema, hmore, hlocation, hhas⟩ := h location keyword heq
  exact ⟨tokens ++ more, schema, hleads.append hmore, by rw [hlocation, Pointer.join_join], hhas⟩

theorem has_of_leads {tokens : List String}
    (h : (Json.obj schema).Leads (keyword :: tokens) value) : schema.has keyword = true := by
  have hroot (inner : Json) (hinner : (Json.obj schema).Leads [] inner) : inner = .obj schema := by
    generalize hnil : ([] : List String) = all at hinner
    cases hinner with
    | root => rfl
    | member | item => simp at hnil
  generalize hall : keyword :: tokens = all at h
  induction h generalizing tokens with
  | root => cases hall
  | @member front members name value hparent hvalue ih =>
    cases front with
    | nil =>
      obtain ⟨rfl, -⟩ := List.cons.inj hall
      obtain rfl := Json.obj.inj (hroot _ hparent)
      rw [Members.has, Option.isSome_iff_ne_none, ne_eq, Members.get?_eq_none_iff, not_not]
      exact List.mem_map.mpr ⟨_, hvalue, rfl⟩
    | cons first rest => exact ih (congrArg (List.cons · rest) (List.cons.inj hall).1)
  | @item front items index value hparent hvalue ih =>
    cases front with
    | nil => cases hroot _ hparent
    | cons first rest => exact ih (congrArg (List.cons · rest) (List.cons.inj hall).1)

theorem Blames.readPattern (h : schema.has keyword = true) (value : Json) :
    Except.Ends (fun _ => True) (Blames site.key site.pointer (.obj schema))
      (readPattern site.location keyword value) := by
  unfold JsonSchema.readPattern
  split
  · split
    · exact .ok trivial
    · exact .error (.own h)
    · exact .error nofun
  · exact .error (.own h)

theorem Blames.readStringKeywords (site : Site) (schema : Members Json) :
    Except.Ends (fun _ => True) (Blames site.key site.pointer (.obj schema))
      (readStringKeywords site.location schema) := by
  have hcount (keyword : String) : Except.Ends (fun _ => True)
      (Blames site.key site.pointer (.obj schema))
      ((schema.count? keyword).mapError (·.at site.location)) :=
    (Members.Blamed.count? schema keyword).mapError fun _ => .own
  refine (hcount _).bind fun _ _ => (hcount _).bind fun _ _ =>
    (ends_mapM fun value hget =>
      Blames.readPattern (Members.has_of_get? hget) value).bind fun _ _ =>
    (ends_mapM fun value hget => ?_).bind fun _ _ => .ok trivial
  split
  · exact .ok trivial
  · exact .error (.own (Members.has_of_get? hget))

/-! ## Steps that fail -/

structure Fails (kind : CompileFault → Prop) (step : CompileM α) : Prop where
  fails : ∀ {c e c'}, Runs step c (.error e) c' → kind e

namespace Fails

section

variable {kind kind' : CompileFault → Prop}

theorem pure (a : α) : Fails kind (pure a) where
  fails hrun := nomatch (runs_pure.mp hrun).1

theorem throw (h : kind fault) : Fails kind (throw fault : CompileM α) where
  fails hrun := by
    cases (runs_throw.mp hrun).1
    exact h

theorem get {f : Compilation → CompileM β} (h : ∀ c, Fails kind (f c)) :
    Fails kind (get >>= f) where
  fails hrun := (h _).fails (runs_get_bind.mp hrun)

theorem modify (f : Compilation → Compilation) : Fails kind (modify f) where
  fails hrun := nomatch (runs_modify.mp hrun).1

theorem bind {x : CompileM α} {f : α → CompileM β} (hx : Fails kind x)
    (hf : ∀ a, Fails kind (f a)) : Fails kind (x >>= f) where
  fails hrun := by
    obtain hrun | ⟨a, c₁, -, hrun⟩ := runs_bind_error.mp hrun
    · exact hx.fails hrun
    · exact (hf a).fails hrun

theorem mono {x : CompileM α} (h : Fails kind x) (himp : ∀ e, kind e → kind' e) :
    Fails kind' x where
  fails hrun := himp _ (h.fails hrun)

theorem lift_bind {fault : ε → CompileFault} {outcome : Except ε α} {f : α → CompileM β}
    (h : Except.Ends (fun _ => True) (fun e => kind (fault e)) outcome)
    (hf : ∀ a, outcome = .ok a → Fails kind (f a)) :
    Fails kind (CompileM.lift fault outcome >>= f) where
  fails hrun := by
    obtain hrun | ⟨a, c₁, hlift, hrun⟩ := runs_bind_error.mp hrun
    · obtain ⟨⟨e, rfl, rfl⟩, -⟩ := runs_lift_error.mp hrun
      exact h.of_error
    · exact (hf a (runs_lift_ok.mp hlift).1).fails hrun

end

end Fails

/-- The step stops with faults of the schema object at a site, or of what is inside of it. -/
abbrev FailsAt (site : Site) (schema : Members Json) (step : CompileM α) : Prop :=
  Fails (Blames site.key site.pointer (.obj schema)) step

def Blaming (compile : CompileChild) : Prop :=
  ∀ site schema child, (Json.obj schema).Leads (child.keyword :: child.tokens) child.value →
    FailsAt site schema (compile site child)

namespace FailsAt

open Fails (pure)

theorem reading_bind {outcome : Except KeywordFault α} {f : α → CompileM β}
    (h : schema.Blamed outcome) (hf : ∀ a, outcome = .ok a → FailsAt site schema (f a)) :
    FailsAt site schema (reading site outcome >>= f) :=
  Fails.lift_bind (h.mono fun _ => .own) hf

theorem refuse {problem : KeywordProblem} (h : schema.has keyword = true) :
    FailsAt site schema (refuse site keyword problem : CompileM α) :=
  .throw (.own h)

theorem refuse_bind {problem : KeywordProblem} {f : β → CompileM α}
    (h : schema.has keyword = true) :
    FailsAt site schema (CompileM.refuse site keyword problem >>= f) where
  fails hrun := by
    obtain hrun | ⟨_, _, hrun, -⟩ := runs_bind_error.mp hrun
    · exact (refuse h).fails hrun
    · exact nomatch (runs_throw.mp hrun).1

/-! ## Keywords that hold schemas -/

section

variable (hcompile : Blaming compile)
include hcompile

theorem childOf (keyword : String) :
    FailsAt site schema (childOf compile site schema keyword) := by
  unfold CompileM.childOf
  cases hget : schema.get? keyword with
  | none => exact pure none
  | some value =>
    exact (hcompile site schema ⟨value, keyword, []⟩ (leads_keyword hget)).bind fun id =>
      pure (some id)

theorem compileItems (index : Nat) (items : List Json)
    (hleads : ∀ entry ∈ items.zipIdx index,
      (Json.obj schema).Leads [keyword, natText entry.2] entry.1) :
    FailsAt site schema (compileItems compile site keyword index items) := by
  induction items generalizing index with
  | nil => exact pure []
  | cons value rest ih =>
    rw [List.zipIdx_cons, List.forall_mem_cons] at hleads
    exact (hcompile site schema ⟨value, keyword, [natText index]⟩ hleads.1).bind fun id =>
      (ih (index + 1) hleads.2).bind fun ids => pure (id :: ids)

theorem compileArrayItems {items : List Json} (hget : schema.get? keyword = some (.arr items)) :
    FailsAt site schema (CompileM.compileItems compile site keyword 0 items) := by
  refine compileItems hcompile 0 items fun entry hentry => ?_
  exact leads_item hget (List.mk_mem_zipIdx_iff_getElem?.mp hentry)

theorem childList (keyword : String) :
    FailsAt site schema (childList compile site schema keyword) := by
  unfold CompileM.childList
  split
  case h_1 => exact pure []
  case h_2 hget => exact compileArrayItems hcompile hget
  case h_3 hget => exact refuse (Members.has_of_get? hget)

theorem compileMembers (members : Members Json)
    (hleads : ∀ member ∈ members, (Json.obj schema).Leads [keyword, member.1] member.2) :
    FailsAt site schema (compileMembers compile site keyword members) := by
  induction members with
  | nil => exact pure []
  | cons member rest ih =>
    rw [List.forall_mem_cons] at hleads
    exact (hcompile site schema ⟨member.2, keyword, [member.1]⟩ hleads.1).bind fun id =>
      (ih hleads.2).bind fun ids => pure ((member.1, id) :: ids)

theorem childMembers (keyword : String) :
    FailsAt site schema (childMembers compile site schema keyword) := by
  refine reading_bind (.object schema keyword) fun members hmembers => ?_
  exact compileMembers hcompile members fun member hmember =>
    leads_member (Members.object_eq_ok hmembers ▸ hmember)

/-! ## Arrays -/

theorem compileOlderItems {items : List Json} (hget : schema.get? "items" = some (.arr items)) :
    FailsAt site schema (compileOlderItems compile site schema items) := by
  have hhas := Members.has_of_get? hget
  unfold CompileM.compileOlderItems
  dsimp only
  split
  · exact refuse_bind hhas
  split
  · exact refuse_bind hhas
  refine (compileArrayItems hcompile hget).bind fun first => ?_
  split
  case h_1 => exact pure _
  case h_2 value hmore =>
    exact (hcompile site schema ⟨value, "additionalItems", []⟩ (leads_keyword hmore)).bind
      fun rest => pure _

theorem compileLatestItems : FailsAt site schema (compileLatestItems compile site schema) := by
  have hrest : FailsAt site schema (CompileM.childOf compile site schema "items") :=
    childOf hcompile "items"
  unfold CompileM.compileLatestItems
  dsimp only
  split
  · exact (childList hcompile "prefixItems").bind fun first => hrest.bind fun rest => pure _
  · exact (pure []).bind fun first => hrest.bind fun rest => pure _

theorem compileItemSchemas : FailsAt site schema (compileItemSchemas compile site schema) := by
  unfold CompileM.compileItemSchemas
  split
  case h_1 items hget => exact compileOlderItems hcompile hget
  case h_2 => exact compileLatestItems hcompile

theorem compileArray : FailsAt site schema (compileArray compile site schema) := by
  refine reading_bind (.count? ..) fun _ _ => reading_bind (.count? ..) fun _ _ =>
    reading_bind (.bool ..) fun _ _ => (compileItemSchemas hcompile).bind fun _ =>
    (childOf hcompile _).bind fun _ => reading_bind (.count? ..) fun _ _ =>
    reading_bind (.count? ..) fun _ _ => pure _

/-! ## Objects -/

theorem compilePatternMembers (members : Members Json)
    (hleads : ∀ member ∈ members,
      (Json.obj schema).Leads ["patternProperties", member.1] member.2) :
    FailsAt site schema (compilePatternMembers compile site members) := by
  induction members with
  | nil => exact pure []
  | cons member rest ih =>
    rw [List.forall_mem_cons] at hleads
    have hhas := has_of_leads hleads.1
    exact Fails.lift_bind (Blames.readPattern hhas _) fun pattern _ =>
      (hcompile site schema ⟨member.2, "patternProperties", [member.1]⟩ hleads.1).bind fun node =>
      (ih hleads.2).bind fun children => pure (⟨pattern, node⟩ :: children)

theorem compileOlderDependencies (done : Dependencies) (members : Members Json)
    (hleads : ∀ member ∈ members, (Json.obj schema).Leads ["dependencies", member.1] member.2) :
    FailsAt site schema (compileOlderDependencies compile site done members) := by
  induction members generalizing done with
  | nil => exact pure done
  | cons member rest ih =>
    rw [List.forall_mem_cons] at hleads
    have hhas := has_of_leads hleads.1
    obtain ⟨name, value⟩ := member
    cases value with
    | arr names => exact reading_bind (.stringList hhas _) fun required _ => ih _ hleads.2
    | _ =>
      exact (hcompile site schema ⟨_, "dependencies", [name]⟩ hleads.1).bind fun id =>
        ih _ hleads.2

theorem compileDependencies : FailsAt site schema (compileDependencies compile site schema) := by
  refine reading_bind (.object ..) fun listed hlisted => reading_bind ?_ fun names _ =>
    (childMembers hcompile _).bind fun schemas => reading_bind (.object ..) fun older holder => ?_
  · cases listed with
    | nil => exact .pure []
    | cons member rest =>
      refine .readNameLists ?_ _
      have hleads : (Json.obj schema).Leads ["dependentRequired", member.1] member.2 :=
        leads_member (Members.object_eq_ok hlisted ▸ List.mem_cons_self)
      exact has_of_leads hleads
  · exact compileOlderDependencies hcompile _ older fun member hmember =>
      leads_member (Members.object_eq_ok holder ▸ hmember)

theorem compileObject : FailsAt site schema (compileObject compile site schema) := by
  have hrequired : schema.Blamed ((schema.get? "required").mapM (stringList "required")) :=
    ends_mapM fun value hget => Members.Blamed.stringList (Members.has_of_get? hget) value
  refine reading_bind hrequired fun _ _ => (childMembers hcompile _).bind fun _ =>
    reading_bind (.object ..) fun patterns hpatterns => ?_
  have hmatched : FailsAt site schema (CompileM.compilePatternMembers compile site patterns) :=
    compilePatternMembers hcompile patterns fun member hmember =>
      leads_member (Members.object_eq_ok hpatterns ▸ hmember)
  exact hmatched.bind fun _ => (childOf hcompile _).bind fun _ =>
    reading_bind (.count? ..) fun _ _ => reading_bind (.count? ..) fun _ _ =>
    (childOf hcompile _).bind fun _ => (compileDependencies hcompile).bind fun _ => pure _

theorem compileComposition : FailsAt site schema (compileComposition compile site schema) :=
  (childList hcompile _).bind fun _ => (childList hcompile _).bind fun _ =>
  (childList hcompile _).bind fun _ => (childOf hcompile _).bind fun _ =>
  (childOf hcompile _).bind fun _ => (childOf hcompile _).bind fun _ =>
  (childOf hcompile _).bind fun _ => pure _

/-! ## Whole schema objects -/

omit hcompile in
theorem warnUnknown (options : CompileOptions) :
    FailsAt site schema (warnUnknown options site schema) := by
  unfold CompileM.warnUnknown
  induction schema.names.filter isUnknownKeyword with
  | nil => exact pure _
  | cons keyword rest ih =>
    have hfirst : FailsAt site schema (if options.strict = true then CompileM.warn
        ("Unknown keyword '" ++ keyword ++ "' at " ++ site.location ++ " is ignored")
        else Pure.pure ()) := by
      split
      · exact (Fails.modify _).bind fun _ => Fails.modify _
      · exact pure _
    exact hfirst.bind fun _ => ih

omit hcompile in
theorem readIdentity (id : NodeId) : FailsAt site schema (readIdentity site id schema) :=
  reading_bind (.readRef schema) fun _ _ => (Fails.modify _).bind fun _ =>
    reading_bind (.readAnchors schema) fun _ _ => (Fails.modify _).bind fun _ => pure _

theorem compileKeywords (id : NodeId) (ref : Option String) :
    FailsAt site schema (compileKeywords options compile site id ref schema) := by
  unfold CompileM.compileKeywords
  refine Fails.lift_bind ?_ fun value _ => reading_bind (.readNumberKeywords ..) fun number _ =>
    Fails.lift_bind ?_ fun string _ => (compileArray hcompile).bind fun array =>
    (compileObject hcompile).bind fun object => (compileComposition hcompile).bind
    fun composition => (childMembers hcompile "$defs").bind fun _ =>
    (childMembers hcompile "definitions").bind fun _ => (warnUnknown options).bind fun _ => pure _
  · refine (Members.Blamed.readValueKeywords schema).mono fun e he => ?_
    unfold KeywordFault.shownAt
    split
    · exact .own he
    · exact nofun
  · exact Blames.readStringKeywords site schema

end

end FailsAt

/-! ## Visits -/

/-- What is no schema is a fault of its owner; any other fault is one of what is inside. -/
def BlamesOwner (owner : Owner) (key pointer : String) (value : Json) (fault : CompileFault) :
    Prop :=
  Blames key pointer value fault ∨ value.isSchema = false ∧
    fault = .badKeyword owner.location owner.keyword .notASchema

namespace Fails

variable {children : Option CompileChild} {owner : Owner}

theorem reserve {kind : CompileFault → Prop} (location : String) :
    Fails kind (reserve location) where
  fails hrun := nomatch (runs_reserve.mp hrun).1

theorem compileNew (hchildren : ∀ compile ∈ children, Blaming compile) :
    Fails (BlamesOwner owner site.key site.pointer value)
      (compileNew options children owner site value) := by
  unfold CompileM.compileNew
  split
  case h_1 => exact (reserve _).bind fun id => (modify _).bind fun _ => pure id
  case h_2 schema compile =>
    refine (reserve _).bind fun id => bind ?_ fun node => (modify _).bind fun _ => pure id
    refine mono ?_ fun _ => .inl
    exact (FailsAt.readIdentity id).bind fun ref =>
      FailsAt.compileKeywords (hchildren compile rfl) id ref
  case h_3 | h_4 => exact throw (.inl nofun)
  case h_5 hbool hobj hdeepBool hdeepObj =>
    refine throw (.inr ⟨?_, rfl⟩)
    cases value with
    | bool b =>
      cases children with
      | none => exact (hdeepBool b rfl rfl).elim
      | some compile => exact (hbool b compile rfl rfl).elim
    | obj schema =>
      cases children with
      | none => exact (hdeepObj schema rfl rfl).elim
      | some compile => exact (hobj schema compile rfl rfl).elim
    | _ => rfl

theorem visit (hchildren : ∀ compile ∈ children, Blaming compile) :
    Fails (BlamesOwner owner key pointer value)
      (visit options children owner key pointer value) := by
  refine get fun c => ?_
  split
  case h_1 => exact pure _
  case h_2 =>
    exact @compileNew _ _ ⟨key, pointer, c.declarationOf key⟩ _ _ hchildren

theorem compileNode (options : CompileOptions) (budget : Nat) (owner : Owner)
    (key pointer : String) (value : Json) :
    Fails (BlamesOwner owner key pointer value)
      (compileNode options budget owner key pointer value) := by
  -- On the levels that are left for children. The owner of a child is the object around it.
  induction budget generalizing owner key pointer value with
  | zero => exact visit nofun
  | succ budget ih =>
    refine visit ?_
    rintro compile ⟨⟩ site schema child hleads
    refine mono (ih ..) fun fault h => ?_
    obtain h | ⟨-, rfl⟩ := h
    · exact h.inside hleads
    · exact .own (has_of_leads hleads)

theorem compileEntry (hvalue : value.isSchema = true) :
    Fails (Blames key pointer value) (compileEntry options key pointer value) := by
  refine mono (compileNode ..) fun fault h => h.resolve_right ?_
  rintro ⟨hnone, -⟩
  rw [hvalue] at hnone
  cases hnone

end Fails

/-! ## Documents -/

theorem Fails.checkDraft (options : CompileOptions) (key : String) (content : Json) :
    Fails (·.keywordAt? = none) (checkDraft options key content) := by
  unfold CompileM.checkDraft
  dsimp only
  split
  · exact (modify _).bind fun _ => pure _
  split
  · exact throw rfl
  split
  · exact throw rfl
  · exact ((modify _).bind fun _ => modify _).bind fun _ => pure _

theorem Fails.addDocument (options : CompileOptions) (key : String) (content : Json) :
    Fails (·.keywordAt? = none) (addDocument options key content) := by
  have hdeclared : Except.Ends (fun _ => True) (fun e => (CompileFault.uri e).keywordAt? = none)
      (declaredBase key content) := by
    cases declaredBase key content with
    | ok declared => exact .ok trivial
    | error e => exact .error rfl
  exact lift_bind hdeclared fun declared _ => (modify _).bind fun _ =>
    (checkDraft options key content).bind fun declaration => modify _

theorem Fails.takeDocument (options : CompileOptions) (ref key uri : String) :
    Fails (·.keywordAt? = none) (takeDocument options ref key uri) := by
  refine get fun c => ?_
  split
  case h_1 => exact pure _
  case h_2 => exact (addDocument ..).bind fun _ => pure _
  case h_3 => exact throw rfl

theorem keywordAt?_pointerFault (ref : String) (inner : PointerFault) :
    (pointerFault ref inner).keywordAt? = none := by
  unfold pointerFault
  split <;> rfl

end CompileM

/--
The location is that of a schema object in a document that was taken in, and the keyword is a member
of the object.
-/
def Compilation.Faulty (options : CompileOptions) (root : Json) (c : Compilation)
    (location keyword : String) : Prop :=
  ∃ key document pointer, ∃ schema : Members Json,
    Members.get? c.documents key = some document ∧
      options.source? root key = some document.content ∧ '#' ∉ key.toList ∧
      location = locationOf key pointer ∧
      Pointer.follow document.content pointer = .ok (.obj schema) ∧ schema.has keyword = true

/-- If the fault is one of a keyword, it names a schema object and a member of it. -/
def Compilation.Points (options : CompileOptions) (root : Json) (c : Compilation)
    (fault : CompileFault) : Prop :=
  ∀ location keyword, fault.keywordAt? = some (location, keyword) →
    c.Faulty options root location keyword

namespace CompileM

open Compilation

variable {options : CompileOptions} {root content value : Json} {fault : CompileFault}
  {c c' : Compilation} {key base ref uri fragment target : String} {document : SourceDocument}
  {tokens : List String}

theorem points_of_none (h : fault.keywordAt? = none) : c.Points options root fault :=
  fun _ _ heq => nomatch h.symm.trans heq

section

variable (hsources : ∀ key content, options.source? root key = some content → content.Pointable)

include hsources

theorem Blames.points (hloaded : c.Loaded options root)
    (hdocument : Members.get? c.documents key = some document)
    (hresolve : Pointer.resolve document.content tokens = .ok value) (hgrows : Grows c c')
    (h : Blames key (Pointer.ofTokens tokens) value fault) : c'.Points options root fault := by
  intro location keyword heq
  obtain ⟨more, schema, hleads, hlocation, hhas⟩ := h location keyword heq
  have hsource := hloaded.source hdocument
  have hvalue := (hsources key _ hsource.content).inside (Pointer.resolve_at hresolve)
  refine ⟨key, document, Pointer.ofTokens (tokens ++ more), schema, hgrows.documents ▸ hdocument,
    hsource.content, hsource.hash, by rw [hlocation, Pointer.join_ofTokens], ?_, hhas⟩
  rw [Pointer.follow_ofTokens, Pointer.resolve, List.foldlM_append]
  exact Except.bind_eq_ok.mpr
    ⟨value, hresolve, Pointer.resolve_of_leads hvalue.wellFormed hvalue.indices hleads⟩

theorem compileRoot_points (hloaded : c.Loaded options root)
    (hdocument : Members.get? c.documents key = some document)
    (h : Runs (compileRoot options key) c (.error fault) c') : c'.Points options root fault := by
  have hgrows := (Growing.compileRoot options key).grows h
  replace h := runs_get_bind.mp h
  split at h
  case h_1 => exact nomatch (runs_pure.mp h).1
  case h_2 =>
    simp only [contentOf_eq hdocument] at h
    split at h
    case isTrue hschema =>
      have hroot : Blames key (Pointer.ofTokens []) document.content fault :=
        (Fails.compileEntry hschema).fails h
      exact hroot.points hsources hloaded hdocument rfl hgrows
    case isFalse =>
      cases (runs_throw.mp h).1
      exact points_of_none rfl

/-! ## References -/

theorem targetDocument_points (hloaded : c.Loaded options root) (hhash : '#' ∉ uri.toList)
    (h : Runs (targetDocument options ref key base uri) c (.error fault) c') :
    c'.Points options root fault := by
  unfold targetDocument at h
  split at h
  case isTrue => exact nomatch (runs_pure.mp h).1
  case isFalse hown =>
    have huri : uri ≠ "" := by
      rintro rfl
      exact hown rfl
    rcases runs_bind_error.mp h with h | ⟨target, c₁, htake, h⟩
    · exact points_of_none ((Fails.takeDocument ..).fails h)
    obtain ⟨htakes, ⟨document, hmem, -⟩, -⟩ := takeDocument_ok hloaded huri hhash htake
    have hloaded₁ := htakes.loaded hloaded
    rcases runs_bind_error.mp h with h | ⟨node, c₂, -, h⟩
    · exact compileRoot_points hsources hloaded₁ (hloaded₁.get?_iff.mpr hmem) h
    · exact nomatch (runs_pure.mp h).1

theorem pointerTarget_points (hloaded : c.Loaded options root)
    (hdocument : Members.get? c.documents target = some document)
    (h : Runs (pointerTarget options ref target fragment) c (.error fault) c') :
    c'.Points options root fault := by
  have hgrows := (Growing.pointerTarget options ref target fragment).grows h
  rcases runs_bind_error.mp h with h | ⟨tokens, c₁, hlift, h⟩
  · obtain ⟨⟨inner, -, rfl⟩, -⟩ := runs_lift_error.mp h
    exact points_of_none (keywordAt?_pointerFault ref inner)
  obtain ⟨-, rfl⟩ := runs_lift_ok.mp hlift
  replace h := runs_get_bind.mp h
  split at h
  case h_1 => exact nomatch (runs_pure.mp h).1
  case h_2 =>
    rw [contentOf_eq hdocument] at h
    rcases runs_bind_error.mp h with h | ⟨value, c₁, hlift, h⟩
    · obtain ⟨⟨inner, -, rfl⟩, -⟩ := runs_lift_error.mp h
      exact points_of_none (keywordAt?_pointerFault ref inner)
    obtain ⟨hresolve, rfl⟩ := runs_lift_ok.mp hlift
    unfold compileTarget at h
    split at h
    case isTrue hschema =>
      replace h := runs_modify_bind.mp h
      exact ((Fails.compileEntry hschema).fails h).points hsources hloaded hdocument hresolve hgrows
    case isFalse =>
      cases (runs_throw.mp h).1
      exact points_of_none rfl

theorem resolveRef_points (hc : c.Aligned) (hloaded : c.Loaded options root)
    (hdocument : Members.get? c.documents key = some document)
    (h : Runs (resolveRef options ref key) c (.error fault) c') : c'.Points options root fault := by
  replace h := runs_get_bind.mp h
  rcases runs_bind_error.mp h with h | ⟨⟨uri, fragment⟩, c₁, hlift, h⟩
  · obtain ⟨⟨inner, -, rfl⟩, -⟩ := runs_lift_error.mp h
    exact points_of_none rfl
  obtain ⟨hlocate, rfl⟩ := runs_lift_ok.mp hlift
  have hhash := Uri.hash_notMem_of_locate hlocate
  rcases runs_bind_error.mp h with h | ⟨target, c₁, htarget, h⟩
  · exact targetDocument_points hsources hloaded hhash h
  -- What went before only added documents and nodes, so the document is still the same.
  obtain ⟨c₂, htakes, hwalk, hmeans, -⟩ := targetDocument_ok fragment hc hloaded hhash htarget
  split at h
  case isTrue =>
    replace h := runs_get_bind.mp h
    split at h
    case h_1 => exact nomatch (runs_pure.mp h).1
    case h_2 =>
      cases (runs_throw.mp h).1
      exact points_of_none rfl
  case isFalse =>
    have hloaded₁ := hwalk.loaded (htakes.loaded hloaded)
    have hextends := htakes.before.extends_.trans hwalk.extends
    have hmeans₁ : c₁.Means key uri target := by
      rw [Means, hextends.baseOf hdocument]
      exact hmeans
    obtain ⟨found, hfound⟩ := hmeans₁.taken hloaded₁ (hextends.documents _ _ hdocument)
    exact pointerTarget_points hsources hloaded₁ hfound h

/-! ## Whole compilations -/

theorem resolvePending_points {fuel : Nat} (hsound : Sound options root [] c)
    (h : Runs (resolvePending options fuel) c (.error fault) c') :
    c'.Points options root fault := by
  induction fuel generalizing c with
  | zero => exact nomatch (runs_pure.mp h).1
  | succ fuel ih =>
    replace h := runs_get_bind.mp h
    split at h
    case h_1 => exact nomatch (runs_pure.mp h).1
    case h_2 first rest hpending =>
      rcases runs_bind_error.mp h with h | ⟨_, c₁, hfirst, h⟩
      · replace h := runs_modify_bind.mp h
        have hbegin := hsound.begin hpending
        obtain ⟨site, value, node, hbuilt, hkey, href⟩ := hbegin.awaits first List.mem_cons_self
        obtain ⟨document, hdocument, -⟩ := hbuilt.declaration
        rcases runs_bind_error.mp h with h | ⟨target, c₂, -, h⟩
        · exact resolveRef_points hsources hbegin.aligned hbegin.loaded (hkey ▸ hdocument) h
        replace h := runs_get_bind.mp h
        replace h := runs_modify_bind.mp h
        exact nomatch (runs_modify.mp h).1
      · exact ih (resolveFirst_sound hsound hpending hfirst).1 h

theorem compileDocument_points (h : Runs (compileDocument options root) {} (.error fault) c) :
    c.Points options root fault := by
  rcases runs_bind_error.mp h with h | ⟨_, c₁, hadd, h⟩
  · exact points_of_none ((Fails.addDocument options "" root).fails h)
  obtain ⟨declared, warnings, log, hdeclared, haccepts, rfl⟩ := addDocument_ok hadd
  have hstart : Sound options root [] (taken {} "" root declared warnings log) :=
    sound_start warnings log hdeclared haccepts
  have hdocument : Members.get? (taken {} "" root declared warnings log).documents "" = some _ :=
    rfl
  rcases runs_bind_error.mp h with h | ⟨id, c₂, hroot, h⟩
  · exact compileRoot_points hsources hstart.loaded hdocument h
  rcases runs_bind_error.mp h with h | ⟨_, c₃, -, h⟩
  · exact resolvePending_points hsources (compileRoot_sound hdeclared haccepts hroot).1 h
  replace h := runs_get_bind.mp h
  replace h := runs_modify_bind.mp h
  exact nomatch (runs_pure.mp h).1

end

end CompileM

/--
A fault of a keyword points at the schema: its location is a key and a pointer that leads to an
object, in the document that is compiled or in a registered one that the compilation took in, and
the object has the keyword.
-/
theorem keyword_faults_located {options : CompileOptions} {document : Json}
    (hsources : ∀ key content, options.source? document key = some content → content.Pointable)
    {location keyword : String} {problem : KeywordProblem}
    (hresult : (runCompile options document).result =
      .error (.badKeyword location keyword problem)) :
    ∃ c, CompileM.Runs (compileDocument options document) {}
        (.error (.badKeyword location keyword problem)) c ∧
      c.Faulty options document location keyword := by
  obtain ⟨c, hrun⟩ := runs_of_result hresult
  exact ⟨c, hrun, CompileM.compileDocument_points hsources hrun _ _ rfl⟩

def numberedSchemas : CompileOptions where
  maxDepth := 10
  strict := false
  registry := [("http://x/n",
    .obj [("$defs", .obj [("a/b", .obj [("allOf", .arr [.bool true, .int 3])])])])]

def numberedRoot : Json := .obj [("$ref", .str "http://x/n#/$defs/a~1b")]

theorem numberedSchemas_located : ∃ problem c,
    CompileM.Runs (compileDocument numberedSchemas numberedRoot) {}
        (.error (.badKeyword "http://x/n#/$defs/a~1b" "allOf" problem)) c ∧
      c.Faulty numberedSchemas numberedRoot "http://x/n#/$defs/a~1b" "allOf" := by
  have hfault : ((runCompile numberedSchemas numberedRoot).result.mapError
      CompileFault.keywordAt?).map (fun _ => ()) =
        .error (some ("http://x/n#/$defs/a~1b", "allOf")) := by
    decide +kernel
  obtain ⟨fault, hresult, hnames⟩ := Except.mapError_eq_error.mp (Except.map_eq_error.mp hfault)
  have hsources : ∀ key content, numberedSchemas.source? numberedRoot key = some content →
      content.Pointable := by
    intro key content hcontent
    unfold CompileOptions.source? at hcontent
    split at hcontent
    case isTrue =>
      cases hcontent
      exact Json.pointable_of_size (by decide +kernel) (by decide +kernel)
    case isFalse =>
      obtain ⟨-, rfl⟩ := Prod.mk.inj (List.mem_singleton.mp (Members.mem_of_get? hcontent))
      exact Json.pointable_of_size (by decide +kernel) (by decide +kernel)
  cases fault with
  | badKeyword location keyword problem =>
    obtain ⟨rfl, rfl⟩ := Prod.mk.inj (Option.some.inj hnames)
    exact ⟨problem, keyword_faults_located hsources hresult⟩
  | _ => cases hnames

end JsonSchema

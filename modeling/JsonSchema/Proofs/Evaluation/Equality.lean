import JsonSchema.Proofs.Evaluation.Verdict
import JsonSchema.Proofs.Json.Equality
import JsonSchema.Proofs.Pointer.Place
import JsonSchema.Proofs.Schema.WellFormed

/-!
# Equal instances

A schema finds equal values both valid or both invalid, as long as none of its steps tells two of
their numbers apart.
-/

namespace JsonSchema

namespace CompiledSchema

def HasStep (schema : CompiledSchema) (step : Number) : Prop :=
  ∃ id, ∃ node ∈ schema.node? id, step ∈ node.number.multipleOf

/-- Equal values whose corresponding numbers are multiples of the same steps. -/
structure Interchangeable (schema : CompiledSchema) (v w : Json) : Prop where
  left : v.isWellFormed = true
  right : w.isWellFormed = true
  same : v.same w = true
  steps : ∀ tokens a b, v.Leads tokens (.num a) → w.Leads tokens (.num b) →
    ∀ step, schema.HasStep step → a.isMultipleOf step = b.isMultipleOf step

namespace Interchangeable

variable {schema : CompiledSchema} {v w : Json} {as bs : List Json} {ms ns : Members Json}
  {name : String} {a b : Json}

theorem symm (h : schema.Interchangeable v w) : schema.Interchangeable w v where
  left := h.right
  right := h.left
  same := Json.same_symm h.left h.right h.same
  steps := fun _ _ _ ha hb step hstep => (h.steps _ _ _ hb ha step hstep).symm

theorem items (h : schema.Interchangeable (.arr as) (.arr bs)) :
    List.Forall₂ schema.Interchangeable as bs := by
  obtain ⟨_, hbs, hsame⟩ := Json.arr_same_iff.mp h.same
  obtain rfl := Json.arr.inj hbs
  rw [List.forall₂_iff_get] at hsame ⊢
  refine ⟨hsame.1, fun i hi hi' => ?_⟩
  have ha : as[i]? = some (as.get ⟨i, hi⟩) := List.getElem?_eq_getElem hi
  have hb : bs[i]? = some (bs.get ⟨i, hi'⟩) := List.getElem?_eq_getElem hi'
  exact ⟨Json.isWellFormed_item h.left (List.get_mem _ _),
    Json.isWellFormed_item h.right (List.get_mem _ _), hsame.2 i hi hi',
    fun tokens m n hm hn => h.steps _ m n ((Json.Leads.root.item ha).append hm)
      ((Json.Leads.root.item hb).append hn)⟩

theorem member (h : schema.Interchangeable (.obj ms) (.obj ns)) (ha : (name, a) ∈ ms) :
    ∃ b, (name, b) ∈ ns ∧ schema.Interchangeable a b := by
  obtain ⟨b, hget, hsame⟩ := (Json.same_obj_iff.mp h.same).2 name a ha
  have hb := Members.mem_of_get? hget
  exact ⟨b, hb, Json.isWellFormed_member h.left ha, Json.isWellFormed_member h.right hb, hsame,
    fun tokens m n hm hn => h.steps _ m n ((Json.Leads.root.member ha).append hm)
      ((Json.Leads.root.member hb).append hn)⟩

theorem names_subset (h : schema.Interchangeable (.obj ms) (.obj ns)) : ms.names ⊆ ns.names := by
  intro name hname
  obtain ⟨⟨_, a⟩, ha, rfl⟩ := List.mem_map.mp hname
  obtain ⟨b, hb, -⟩ := h.member ha
  exact List.mem_map.mpr ⟨_, hb, rfl⟩

theorem has (h : schema.Interchangeable (.obj ms) (.obj ns)) (hname : ms.has name = true) :
    ns.has name = true := by
  rw [Members.has, Option.isSome_iff_ne_none, ne_eq, Members.get?_eq_none_iff, not_not] at *
  exact h.names_subset hname

theorem length (h : schema.Interchangeable (.obj ms) (.obj ns)) : ms.length = ns.length :=
  (Json.same_obj_iff.mp h.same).1

end Interchangeable

end CompiledSchema

/-! ## Values alone -/

section

variable {v w : Json}

theorem Json.OfKind.of_same {kind : Json.Kind} (h : v.OfKind kind) (hsame : v.same w = true) :
    w.OfKind kind := by
  cases kind with
  | null =>
    rw [show v = .null from h] at hsame
    exact Json.null_same_iff.mp hsame
  | boolean =>
    obtain ⟨b, rfl⟩ := h
    exact ⟨b, Json.bool_same_iff.mp hsame⟩
  | string =>
    obtain ⟨s, rfl⟩ := h
    exact ⟨s, Json.str_same_iff.mp hsame⟩
  | number =>
    obtain ⟨n, rfl⟩ := h
    obtain ⟨m, rfl, -⟩ := Json.num_same_iff.mp hsame
    exact ⟨m, rfl⟩
  | integer =>
    obtain ⟨n, rfl, k, hk⟩ := h
    obtain ⟨m, rfl, hnm⟩ := Json.num_same_iff.mp hsame
    exact ⟨m, rfl, k, (Number.value_of_same hnm).symm.trans hk⟩
  | array =>
    obtain ⟨as, rfl⟩ := h
    obtain ⟨bs, rfl, -⟩ := Json.arr_same_iff.mp hsame
    exact ⟨bs, rfl⟩
  | object =>
    obtain ⟨ms, rfl⟩ := h
    obtain ⟨ns, rfl, -⟩ := Json.obj_same_iff.mp hsame
    exact ⟨ns, rfl⟩

theorem ValueKeywords.Holds.of_same {keywords : ValueKeywords} (h : keywords.Holds v)
    (hback : w.same v = true) (hsame : v.same w = true) : keywords.Holds w where
  types := by
    intro types htypes
    obtain ⟨kind, hkind, hof⟩ := h.types types htypes
    exact ⟨kind, hkind, hof.of_same hsame⟩
  options := by
    intro options hoptions
    obtain ⟨option, hoption, heq⟩ := h.options options hoptions
    exact ⟨option, hoption, Json.same_trans hback heq⟩
  const := fun expected hexpected => Json.same_trans hback (h.const expected hexpected)

theorem NumberKeywords.Holds.of_same {keywords : NumberKeywords} {m n : Number}
    (h : keywords.Holds m) (hsame : m.same n = true)
    (hstep : ∀ step ∈ keywords.multipleOf, m.isMultipleOf step = n.isMultipleOf step) :
    keywords.Holds n := by
  have hvalue := Number.value_of_same hsame
  exact ⟨hvalue ▸ h.minimum, hvalue ▸ h.maximum, hvalue ▸ h.exclusiveMinimum,
    hvalue ▸ h.exclusiveMaximum, fun step hs => hstep step hs ▸ h.multipleOf step hs⟩

end

/-! ## Parts -/

namespace CompiledSchema

variable {schema : CompiledSchema} {sat : NodeId → Json → Prop} {v w : Json}

/-- What the nodes ask does not depend on how an instance is written. -/
def Respects (schema : CompiledSchema) (sat : NodeId → Json → Prop) : Prop :=
  ∀ id v w, schema.Interchangeable v w → sat id v → sat id w

theorem Respects.iff (hs : schema.Respects sat) (h : schema.Interchangeable v w) (id : NodeId) :
    sat id v ↔ sat id w :=
  ⟨hs id v w h, hs id w v h.symm⟩

theorem Respects.countHolding (hs : schema.Respects sat) {as bs : List Json}
    (h : List.Forall₂ schema.Interchangeable as bs) (child : NodeId) :
    countHolding sat child as = countHolding sat child bs := by
  unfold JsonSchema.countHolding
  induction h with
  | nil => rfl
  | cons hfirst _ ih =>
    rw [List.countP_cons, List.countP_cons, ih, decide_eq_decide.mpr (hs.iff hfirst child)]

theorem pairwise_of_interchangeable {as bs : List Json}
    (h : List.Forall₂ schema.Interchangeable as bs)
    (hdistinct : as.Pairwise fun a b => a.same b = false) :
    bs.Pairwise fun a b => a.same b = false := by
  have hlength := h.length_eq
  rw [List.pairwise_iff_getElem] at hdistinct ⊢
  intro i j hi hj hlt
  have hone : schema.Interchangeable as[i] bs[i] := h.get (by omega) hi
  have htwo : schema.Interchangeable as[j] bs[j] := h.get (by omega) hj
  rw [← Bool.not_eq_true]
  intro hsame
  have hback := Json.same_trans (Json.same_trans hone.same hsame) htwo.symm.same
  rw [hdistinct i j (by omega) (by omega) hlt] at hback
  cases hback

theorem Respects.array (hs : schema.Respects sat) {keywords : ArrayKeywords} {as bs : List Json}
    (h : List.Forall₂ schema.Interchangeable as bs) (hholds : keywords.Holds sat as) :
    keywords.Holds sat bs := by
  have hlength := h.length_eq
  have hcount := hs.countHolding h
  -- Every item on the right has its counterpart at the same index on the left.
  have hitem : ∀ (i : Nat) b, bs[i]? = some b → ∃ a, as[i]? = some a ∧
      schema.Interchangeable a b := by
    intro i b hb
    obtain ⟨hi, rfl⟩ := List.getElem?_eq_some_iff.mp hb
    have hi' : i < as.length := by omega
    exact ⟨as[i], List.getElem?_eq_getElem hi', h.get hi' hi⟩
  refine ⟨hlength ▸ hholds.minItems, hlength ▸ hholds.maxItems,
    fun hunique => pairwise_of_interchangeable h (hholds.uniqueItems hunique), ?_, ?_, ?_, ?_⟩
  · intro i child hchild b hb
    obtain ⟨a, ha, hab⟩ := hitem i b hb
    exact hs child a b hab (hholds.firstItems i child hchild a ha)
  · intro child hchild b hb
    obtain ⟨i, hi⟩ := List.mem_iff_getElem?.mp hb
    rw [List.getElem?_drop] at hi
    obtain ⟨a, ha, hab⟩ := hitem _ b hi
    rw [← List.getElem?_drop] at ha
    exact hs child a b hab (hholds.furtherItems child hchild a (List.mem_of_getElem? ha))
  · exact fun child hchild => hcount child ▸ hholds.minContains child hchild
  · exact fun child hchild => hcount child ▸ hholds.maxContains child hchild

theorem Respects.object (hs : schema.Respects sat) {keywords : ObjectKeywords} {ms ns : Members Json}
    (h : schema.Interchangeable (.obj ms) (.obj ns)) (hholds : keywords.Holds sat ms) :
    keywords.Holds sat ns := by
  have hback := h.symm
  refine ⟨fun name hname => h.has (hholds.required name hname), h.length ▸ hholds.minProperties,
    h.length ▸ hholds.maxProperties, ?_, ?_, ?_, ?_, ?_, ?_⟩
  · intro trigger names hmem htrigger name hname
    exact h.has (hholds.dependentRequired trigger names hmem (hback.has htrigger) name hname)
  · intro name b hb child hchild
    obtain ⟨a, ha, hab⟩ := hback.member hb
    exact hs child a b hab.symm (hholds.properties name a ha child hchild)
  · intro name b hb entry hentry hmatch
    obtain ⟨a, ha, hab⟩ := hback.member hb
    exact hs _ a b hab.symm (hholds.patternProperties name a ha entry hentry hmatch)
  · intro name b hb hadditional child hchild
    obtain ⟨a, ha, hab⟩ := hback.member hb
    exact hs child a b hab.symm (hholds.additionalProperties name a ha hadditional child hchild)
  · intro child hchild name hname
    exact hholds.propertyNames child hchild name (hback.names_subset hname)
  · intro trigger child hmem htrigger
    exact hs child _ _ h (hholds.dependentSchemas trigger child hmem (hback.has htrigger))

theorem Respects.composition (hs : schema.Respects sat) {keywords : Composition}
    (h : schema.Interchangeable v w) (hholds : keywords.Holds sat v) : keywords.Holds sat w := by
  have hiff := hs.iff h
  refine ⟨?_, ?_, ?_, ?_, ?_, ?_⟩
  · exact fun child hchild => (hiff child).mp (hholds.allOf child hchild)
  · intro hne
    obtain ⟨child, hchild, hsat⟩ := hholds.anyOf hne
    exact ⟨child, hchild, (hiff child).mp hsat⟩
  · intro hne
    have hcount := hholds.oneOf hne
    rwa [funext fun child => decide_eq_decide.mpr (hiff child)] at hcount
  · exact fun child hchild => mt (hiff child).mpr (hholds.negated child hchild)
  · intro child hchild hsat branch hbranch
    exact (hiff branch).mp (hholds.consequent child hchild ((hiff child).mpr hsat) branch hbranch)
  · intro child hchild hsat branch hbranch
    exact (hiff branch).mp
      (hholds.alternative child hchild (mt (hiff child).mp hsat) branch hbranch)

/-! ## Nodes -/

theorem Respects.holds (hs : schema.Respects sat) {id : NodeId} {node : SchemaNode}
    {assertFormats : Bool} (hnode : schema.node? id = some node) (h : schema.Interchangeable v w)
    (hholds : node.Holds assertFormats sat v) : node.Holds assertFormats sat w := by
  unfold SchemaNode.Holds at hholds ⊢
  cases hboolean : node.boolean with
  | some b => simpa [hboolean] using hholds
  | none =>
    simp only [hboolean] at hholds ⊢
    obtain ⟨hreferred, hvalue, htyped, hcomposition⟩ := hholds
    refine ⟨fun target htarget => hs target v w h (hreferred target htarget),
      hvalue.of_same h.symm.same h.same, ?_, hs.composition h hcomposition⟩
    have hsame := h.same
    cases v with
    | null =>
      obtain rfl := Json.null_same_iff.mp hsame
      exact htyped
    | bool b =>
      obtain rfl := Json.bool_same_iff.mp hsame
      exact htyped
    | str s =>
      obtain rfl := Json.str_same_iff.mp hsame
      exact htyped
    | num m =>
      obtain ⟨n, rfl, hmn⟩ := Json.num_same_iff.mp hsame
      exact htyped.of_same hmn fun step hstep =>
        h.steps [] m n .root .root step ⟨id, node, hnode, hstep⟩
    | arr as =>
      obtain ⟨bs, rfl, -⟩ := Json.arr_same_iff.mp hsame
      exact hs.array h.items htyped
    | obj ms =>
      obtain ⟨ns, rfl, -⟩ := Json.obj_same_iff.mp hsame
      exact hs.object h htyped

theorem unfolded_respects (assertFormats : Bool) (depth : Nat) :
    schema.Respects (schema.unfolded assertFormats (fun _ _ => True) depth) := by
  induction depth with
  | zero => exact fun _ _ _ _ _ => trivial
  | succ depth ih =>
    intro id v w h hholds node hnode
    exact ih.holds hnode h (hholds node hnode)

/-- Interchangeable instances get one verdict wherever both evaluations come to an end. -/
theorem verdict_of_interchangeable {options : EvaluationOptions} {vs ws : Violations}
    (h : schema.Interchangeable v w) (hv : schema.validate options v = .ok vs)
    (hw : schema.validate options w = .ok ws) : vs = [] ↔ ws = [] := by
  rw [evaluate_decides_unfolded (fun _ _ => True) _ _ _ _ _ hv,
    evaluate_decides_unfolded (fun _ _ => True) _ _ _ _ _ hw]
  exact (unfolded_respects _ _).iff h rootId

end CompiledSchema

/-! ## Corresponding numbers -/

theorem Json.Leads.same {v w a b : Json} {tokens : List String} (ha : v.Leads tokens a)
    (hb : w.Leads tokens b) (hw : w.isWellFormed = true) (hsame : v.same w = true) :
    a.same b = true := by
  induction ha generalizing b with
  | root =>
    generalize htokens : ([] : List String) = tokens at hb
    cases hb with
    | root => exact hsame
    | member => simp at htokens
    | item => simp at htokens
  | @member tokens ms name a hparent hmem ih =>
    generalize htokens : tokens ++ [name] = tokens' at hb
    cases hb with
    | root => simp at htokens
    | @member _ ns name' b hparent' hmem' =>
      obtain ⟨rfl, hname⟩ := List.append_inj' htokens rfl
      obtain rfl := List.singleton_inj.mp hname
      obtain ⟨b', hget, hab⟩ := (Json.same_obj_iff.mp (ih hparent')).2 name a hmem
      have hnames := Json.isWellFormed_names (hparent'.at.isWellFormed hw)
      rw [Members.get?_of_mem hnames hmem', Option.some.injEq] at hget
      exact hget ▸ hab
    | @item _ items i b hparent' hitem =>
      obtain ⟨rfl, -⟩ := List.append_inj' htokens rfl
      obtain ⟨ns, hobj, -⟩ := Json.obj_same_iff.mp (ih hparent')
      cases hobj
  | @item tokens as i a hparent hitem ih =>
    generalize htokens : tokens ++ [natText i] = tokens' at hb
    cases hb with
    | root => simp at htokens
    | @member _ ns name' b hparent' hmem' =>
      obtain ⟨rfl, -⟩ := List.append_inj' htokens rfl
      obtain ⟨bs, harr, -⟩ := Json.arr_same_iff.mp (ih hparent')
      cases harr
    | @item _ items j b hparent' hitem' =>
      obtain ⟨rfl, hindex⟩ := List.append_inj' htokens rfl
      obtain rfl := natText_inj (List.singleton_inj.mp hindex)
      obtain ⟨bs, harr, hall⟩ := Json.arr_same_iff.mp (ih hparent')
      obtain rfl := Json.arr.inj harr
      obtain ⟨hi, rfl⟩ := List.getElem?_eq_some_iff.mp hitem
      obtain ⟨hj, rfl⟩ := List.getElem?_eq_some_iff.mp hitem'
      exact List.Forall₂.get hall hi hj

/-! ## Outcomes -/

/--
Equal instances get one verdict wherever both evaluations come to an end, unless a step of the
schema tells the two spellings of one number apart.
-/
theorem equal_instances_agree {options : CompileOptions} {document : Json}
    {schema : CompiledSchema} (h : (runCompile options document).result = .ok schema)
    {evaluation : EvaluationOptions} {v w : Json} (hv : v.isWellFormed = true)
    (hw : w.isWellFormed = true) (hsame : v.same w = true) {vs ws : Violations}
    (hvs : schema.validate evaluation v = .ok vs) (hws : schema.validate evaluation w = .ok ws) :
    (vs = [] ↔ ws = []) ∨ ∃ tokens a b step, v.Leads tokens (.num a) ∧ w.Leads tokens (.num b) ∧
      schema.HasStep step ∧ step.TellsApart a b := by
  by_cases hinter : schema.Interchangeable v w
  · exact .inl (CompiledSchema.verdict_of_interchangeable hinter hvs hws)
  refine .inr ?_
  by_contra hnone
  simp only [not_exists, not_and] at hnone
  refine hinter ⟨hv, hw, hsame, fun tokens a b ha hb step hstep => ?_⟩
  have hnumbers : a.same b = true := by
    obtain ⟨m, hm, hnumbers⟩ := Json.num_same_iff.mp (ha.same hb hw hsame)
    rwa [Json.num.inj hm]
  have hpositive : step.le (.int 0) = false := by
    obtain ⟨c, hc, rfl⟩ := finished_of_result h
    obtain ⟨id, node, hnode, hmem⟩ := hstep
    have hpos := hc.wellFormed.steps id node hnode step hmem
    rw [Bool.eq_false_iff, ne_eq, Number.le_iff, not_le]
    exact hpos.trans_eq' (by simp [Number.value])
  exact (Number.isMultipleOf_congr hnumbers hpositive).resolve_right
    (hnone tokens a b step ha hb hstep)

def billion : Json := .obj [("multipleOf", .int 1000000000)]

def aboveBillion : Binary64 :=
  ⟨false, 1000000001 * Nat.pow 2 23, 1051, by decide, by decide, by decide⟩

/-- A billionth of the step is one, so only the integer is refused. -/
theorem billion_tells_apart : ∃ schema vs, (runCompile ⟨10, false, []⟩ billion).result = .ok schema ∧
    schema.validate ⟨10, false⟩ (.int 1000000001) = .ok vs ∧ vs ≠ [] ∧
    schema.validate ⟨10, false⟩ (.float aboveBillion) = .ok [] ∧
    ∃ tokens a b step, (Json.int 1000000001).Leads tokens (.num a) ∧
      (Json.float aboveBillion).Leads tokens (.num b) ∧ schema.HasStep step ∧
      step.TellsApart a b := by
  have hrun : (runCompile ⟨10, false, []⟩ billion).result.toOption.bind (fun schema =>
      (schema.validate ⟨10, false⟩ (.int 1000000001)).toOption.bind fun vs =>
        (schema.validate ⟨10, false⟩ (.float aboveBillion)).toOption.map fun ws =>
          (vs.isEmpty, ws.isEmpty)) = some (false, true) := by decide +kernel
  simp only [Option.bind_eq_some_iff, Option.map_eq_some_iff, Prod.mk.injEq,
    Except.toOption_eq_some] at hrun
  obtain ⟨schema, hschema, vs, hvs, ws, hws, hrefused, haccepted⟩ := hrun
  obtain rfl := List.isEmpty_iff.mp haccepted
  have hne : vs ≠ [] := by
    rintro rfl
    cases hrefused
  refine ⟨schema, vs, hschema, hvs, hne, hws, ?_⟩
  have hsame : (Json.int 1000000001).same (.float aboveBillion) = true := by decide +kernel
  have hagree := equal_instances_agree hschema rfl rfl hsame hvs hws
  exact hagree.resolve_left fun hiff => hne (hiff.mpr rfl)

end JsonSchema

import JsonSchema.Proofs.Evaluation.Shown
import JsonSchema.Proofs.Evaluation.Verdict
import JsonSchema.Proofs.Json.Members
import Mathlib.Data.Finset.Card

/-!
# How deep an evaluation goes

Where no node leads back to itself on one value, a node that is applied to a value at hand is
followed by fewer and fewer nodes on that value, and then the value gets smaller. So the number of
nodes and the depth of the instance bound the depth of the evaluation.
-/

namespace JsonSchema

open Relation (TransGen ReflTransGen)

theorem SchemaNode.Applies.depth_lt {node : SchemaNode} {value value' : Json} {path path' : Path}
    {child : NodeId} (h : node.Applies value path child value' path') :
    child ∈ node.inPlace ∧ value' = value ∨ value'.depth < value.depth := by
  cases h with
  | inPlace h => exact .inl ⟨h, rfl⟩
  | item _ hitem => exact .inr (Json.depth_item (List.mem_of_getElem? hitem))
  | member _ hmember => exact .inr (Json.depth_member hmember)
  | name _ hname =>
    obtain ⟨⟨name, member⟩, hmember, rfl⟩ := List.mem_map.mp hname
    have hlt := Json.depth_member hmember
    exact .inr (Nat.lt_of_le_of_lt (Nat.zero_le _) hlt)

namespace CompiledSchema

def InPlace (schema : CompiledSchema) (id next : NodeId) : Prop :=
  ∃ node, schema.node? id = some node ∧ next ∈ node.inPlace

/-- No node comes back to itself on one value. -/
def NonCircular (schema : CompiledSchema) : Prop := ∀ id, ¬ TransGen schema.InPlace id id

variable {schema : CompiledSchema} {options : EvaluationOptions} {id next : NodeId}

theorem nonCircular_of_lt (height : NodeId → Nat)
    (h : ∀ id < schema.nodes.size, ∀ next ∈ ((schema.node? id).map (·.inPlace)).getD [],
      height next < height id) : schema.NonCircular := by
  have hstep : ∀ {id next}, schema.InPlace id next → height next < height id := by
    rintro id next ⟨node, hnode, hnext⟩
    refine h id (Array.getElem?_eq_some_iff.mp hnode).1 next ?_
    rwa [hnode]
  have hsteps : ∀ {id next}, TransGen schema.InPlace id next → height next < height id := by
    intro id next htrans
    induction htrans with
    | single hfirst => exact hstep hfirst
    | tail _ hlast ih => exact (hstep hlast).trans ih
  exact fun id hcircle => Nat.lt_irrefl _ (hsteps hcircle)

/-! ## Rank -/

open Classical in
/-- The number of nodes that a node leads to on one value, itself included. -/
noncomputable def rank (schema : CompiledSchema) (id : NodeId) : Nat :=
  ((Finset.range schema.nodes.size).filter fun next => ReflTransGen schema.InPlace id next).card

open Classical in
theorem rank_le_size (schema : CompiledSchema) (id : NodeId) :
    schema.rank id ≤ schema.nodes.size := by
  unfold rank
  exact (Finset.card_filter_le _ _).trans_eq (Finset.card_range _)

open Classical in
theorem rank_pos (h : id < schema.nodes.size) : 0 < schema.rank id :=
  Finset.card_pos.mpr ⟨id, Finset.mem_filter.mpr ⟨Finset.mem_range.mpr h, .refl⟩⟩

open Classical in
theorem rank_lt_of_inPlace (hschema : schema.NonCircular) (h : schema.InPlace id next)
    (hid : id < schema.nodes.size) : schema.rank next < schema.rank id := by
  refine Finset.card_lt_card (Finset.ssubset_iff_of_subset ?_ |>.mpr ⟨id, ?_, ?_⟩)
  · exact Finset.monotone_filter_right _ fun other _ hother => .head h hother
  · exact Finset.mem_filter.mpr ⟨Finset.mem_range.mpr hid, .refl⟩
  · intro hmem
    exact hschema id (.head' h (Finset.mem_filter.mp hmem).2)

/-! ## Budget -/

noncomputable def levels (schema : CompiledSchema) (visit : Visit) : Nat :=
  schema.rank visit.id + schema.nodes.size * visit.value.depth

theorem levels_lt (hschema : schema.NonCircular) {visit next : Visit}
    (h : schema.Applies visit next) : schema.levels next < schema.levels visit := by
  obtain ⟨node, hnode, happlies⟩ := h
  have hid : visit.id < schema.nodes.size := (Array.getElem?_eq_some_iff.mp hnode).1
  unfold levels
  rcases happlies.depth_lt with ⟨hinPlace, hvalue⟩ | hdepth
  · have hrank := rank_lt_of_inPlace hschema ⟨node, hnode, hinPlace⟩ hid
    rw [hvalue]
    omega
  · have hpos := rank_pos hid
    have hrank := rank_le_size schema next.id
    have hmul : schema.nodes.size * (next.value.depth + 1) ≤ schema.nodes.size * visit.value.depth :=
      Nat.mul_le_mul_left _ hdepth
    rw [Nat.mul_add_one] at hmul
    omega

/-- A visit that is too deep has had no more levels than it needs. -/
theorem budget_le_levels (hschema : schema.NonCircular) {budget : Nat} {visit : Visit}
    {fault : EvaluationFault} (h : schema.visit options budget visit = .error fault)
    (hdepth : fault.isOfDepth = true) : budget ≤ schema.levels visit := by
  induction budget generalizing visit with
  | zero => exact Nat.zero_le _
  | succ budget ih =>
    obtain ⟨node, -, hbreaks | ⟨next, happlies, hnext⟩⟩ := breaks_or_applies h
    · rw [hbreaks.asserts.2] at hdepth
      cases hdepth
    · have hlt := levels_lt hschema happlies
      have hle := ih hnext
      omega

theorem validate_ne_tooDeep (hschema : schema.NonCircular) {instance_ : Json}
    (hdepth : ((schema.nodes.size * (instance_.depth + 1) : Nat) : Int) ≤ options.maxDepth)
    (maxDepth : Int) (pointer : String) :
    schema.validate options instance_ ≠ .error (.tooDeep maxDepth pointer) := by
  intro h
  rw [validate_eq_visit] at h
  have hle := budget_le_levels hschema h rfl
  have hlevels : schema.levels (.root instance_) ≤ schema.nodes.size * (instance_.depth + 1) := by
    rw [Nat.mul_add_one, Nat.add_comm]
    exact Nat.add_le_add_right (rank_le_size schema rootId) _
  omega

/--
Where no node comes back to itself on one value, a depth of as many levels as there are nodes, for
each container around the innermost value and for that value, is enough for every instance. Then
there is an outcome, unless the format of a string has none or an integer has no text.
-/
theorem depth_suffices (hschema : schema.NonCircular) {instance_ : Json}
    (hdepth : ((schema.nodes.size * (instance_.depth + 1) : Nat) : Int) ≤ options.maxDepth) :
    (∀ maxDepth pointer,
      schema.validate options instance_ ≠ .error (.tooDeep maxDepth pointer)) ∧
      (∀ maxDepth pointer,
        schema.validateShown options instance_ ≠ .error (.tooDeep maxDepth pointer)) ∧
      (schema.NothingEscapes options instance_ → ∃ violations,
        schema.validateShown options instance_ = .ok violations) := by
  have hplain := validate_ne_tooDeep hschema hdepth
  have hshown : ∀ maxDepth pointer,
      schema.validateShown options instance_ ≠ .error (.tooDeep maxDepth pointer) := by
    intro maxDepth pointer h
    rcases validateShown_shows schema options instance_ with hnone | hsame
    · cases hnone.symm.trans h
    · exact hplain maxDepth pointer (hsame.symm.trans h)
  refine ⟨hplain, hshown, fun hnothing => ?_⟩
  cases hvalidate : schema.validateShown options instance_ with
  | ok violations => exact ⟨violations, rfl⟩
  | error fault =>
    obtain ⟨pointer, rfl⟩ := hnothing.tooDeep hvalidate
    exact absurd hvalidate (hshown _ _)

/-- A list of two elements needs at most fifteen levels of the five nodes; two are too few. -/
theorem listSchema_needs_few_levels :
    listSchema.NonCircular ∧
      (∃ violations, listSchema.validateShown ⟨15, false⟩
        (.obj [("next", .obj [("next", .null)])]) = .ok violations) ∧
      listSchema.validateShown ⟨2, false⟩ (.obj [("next", .obj [("next", .null)])]) =
        .error (.tooDeep 2 "/next") := by
  have hlist : listSchema.NonCircular := by
    refine nonCircular_of_lt (fun id => if id = 3 then 2 else if id = 0 then 1 else 0) ?_
    decide
  have hnothing : listSchema.NothingEscapes ⟨15, false⟩ (.obj [("next", .obj [("next", .null)])]) :=
    nothingEscapes_of_hasText rfl rfl (by decide +kernel)
  exact ⟨hlist, (depth_suffices hlist (by decide)).2.2 hnothing, by decide +kernel⟩

end CompiledSchema

end JsonSchema

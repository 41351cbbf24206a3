import JsonSchema.Proofs.Json.Equality
import JsonSchema.Proofs.Pointer.Place

/-!
# Documents that differ in the order of members

Where each object has its names once, the order of members shows at no place: whatever leads to a
value of one document leads to a value of the other, and these two differ in no more than the order
of members again.
-/

namespace JsonSchema

/--
Equal values with the same numbers in them. With each name once in an object, only the order of
members may differ.
-/
structure Json.Reordered (v w : Json) : Prop where
  left : v.isWellFormed = true
  right : w.isWellFormed = true
  same : v.same w = true
  numbers : ∀ tokens a b, v.Leads tokens (.num a) → w.Leads tokens (.num b) → a = b

namespace Json

variable {v w a b : Json} {as bs : List Json} {ms ns : Members Json} {tokens : List String}
  {name : String}

theorem same_refl (hv : v.isWellFormed = true) : v.same v = true := by
  induction v using induction_parts with
  | null => exact null_same_iff.mpr rfl
  | bool b => exact bool_same_iff.mpr rfl
  | str s => exact str_same_iff.mpr rfl
  | num n => exact num_same_iff.mpr ⟨n, rfl, (Number.same_iff n n).mpr rfl⟩
  | arr as ih =>
    refine arr_same_iff.mpr ⟨as, rfl, List.forall₂_same.mpr fun a ha => ?_⟩
    exact ih a ha (isWellFormed_item hv ha)
  | obj ms ih =>
    refine obj_same_iff.mpr ⟨ms, rfl, rfl, fun name a ha => ?_⟩
    have hget := Members.get?_of_mem (isWellFormed_names hv) ha
    exact ⟨a, hget, ih name a ha (isWellFormed_member hv ha)⟩

namespace Reordered

theorem refl (hv : v.isWellFormed = true) : v.Reordered v :=
  ⟨hv, hv, same_refl hv, fun _ _ _ ha hb => Json.num.inj (ha.at.unique hv hb.at)⟩

theorem symm (h : v.Reordered w) : w.Reordered v :=
  ⟨h.right, h.left, same_symm h.left h.right h.same,
    fun _ _ _ hb ha => (h.numbers _ _ _ ha hb).symm⟩

/-! ## Parts -/

/-- Two scalars are the same one, and two values of other types have related parts. -/
inductive Parts : Json → Json → Prop where
  | null : Parts .null .null
  | bool (value : Bool) : Parts (.bool value) (.bool value)
  | num (n : Number) : Parts (.num n) (.num n)
  | str (s : String) : Parts (.str s) (.str s)
  | arr {as bs : List Json} (h : List.Forall₂ Reordered as bs) : Parts (.arr as) (.arr bs)
  | obj {ms ns : Members Json} (h : (Json.obj ms).Reordered (.obj ns)) : Parts (.obj ms) (.obj ns)

theorem parts (h : v.Reordered w) : Parts v w := by
  cases v with
  | null => exact null_same_iff.mp h.same ▸ .null
  | bool value => exact bool_same_iff.mp h.same ▸ .bool value
  | str s => exact str_same_iff.mp h.same ▸ .str s
  | num n =>
    obtain ⟨m, rfl, -⟩ := num_same_iff.mp h.same
    exact h.numbers [] n m .root .root ▸ .num n
  | arr as =>
    obtain ⟨bs, rfl, hsame⟩ := arr_same_iff.mp h.same
    refine .arr (List.forall₂_iff_get.mpr ⟨hsame.length_eq, fun i hi hj => ?_⟩)
    refine ⟨isWellFormed_item h.left (List.get_mem ..), isWellFormed_item h.right (List.get_mem ..),
      hsame.get hi hj, fun tokens x y hx hy => ?_⟩
    have ha : (Json.arr as).Leads [natText i] (as.get ⟨i, hi⟩) := Leads.root.item (by simp)
    have hb : (Json.arr bs).Leads [natText i] (bs.get ⟨i, hj⟩) := Leads.root.item (by simp)
    exact h.numbers _ x y (ha.append hx) (hb.append hy)
  | obj ms =>
    obtain ⟨ns, rfl, -⟩ := obj_same_iff.mp h.same
    exact .obj h

theorem arr (h : (Json.arr as).Reordered w) : ∃ bs, w = .arr bs ∧ List.Forall₂ Reordered as bs := by
  cases h.parts with
  | arr hall => exact ⟨_, rfl, hall⟩

theorem obj (h : (Json.obj ms).Reordered w) : ∃ ns : Members Json, w = .obj ns ∧
    ∀ name, Option.Rel Reordered (ms.get? name) (ns.get? name) := by
  obtain ⟨ns, rfl, -, hall⟩ := obj_same_iff.mp h.same
  refine ⟨ns, rfl, fun name => ?_⟩
  cases hget : ms.get? name with
  | none =>
    have hname := mt (names_subset_of_same h.same (isWellFormed_names h.left) ·)
      (Members.get?_eq_none_iff.mp hget)
    rw [Members.get?_eq_none_iff.mpr hname]
    exact .none
  | some a =>
    have ha := Members.mem_of_get? hget
    obtain ⟨b, hb, hab⟩ := hall name a ha
    rw [hb]
    have hb' := Members.mem_of_get? hb
    refine .some ⟨isWellFormed_member h.left ha, isWellFormed_member h.right hb', hab,
      fun tokens x y hx hy => ?_⟩
    exact h.numbers _ x y ((Leads.root.member ha).append hx)
      ((Leads.root.member hb').append hy)

/-! ## Places -/

theorem member (h : (Json.obj ms).Reordered w) (ha : (name, a) ∈ ms) :
    ∃ ns b, w = .obj ns ∧ (name, b) ∈ ns ∧ a.Reordered b := by
  obtain ⟨ns, rfl, hrel⟩ := h.obj
  specialize hrel name
  rw [Members.get?_of_mem (isWellFormed_names h.left) ha] at hrel
  generalize hget : Members.get? ns name = found at hrel
  obtain @⟨_, b, hab⟩ := hrel
  exact ⟨ns, b, rfl, Members.mem_of_get? hget, hab⟩

theorem item {i : Nat} (h : (Json.arr as).Reordered w) (ha : as[i]? = some a) :
    ∃ bs b, w = .arr bs ∧ bs[i]? = some b ∧ a.Reordered b := by
  obtain ⟨bs, rfl, hall⟩ := h.arr
  obtain ⟨hi, rfl⟩ := List.getElem?_eq_some_iff.mp ha
  have hj : i < bs.length := hall.length_eq ▸ hi
  exact ⟨bs, bs[i], rfl, List.getElem?_eq_getElem hj, hall.get hi hj⟩

theorem hasText (h : v.Reordered w) (hv : v.hasText = true) : w.hasText = true := by
  induction v using induction_parts generalizing w with
  | arr as ih =>
    obtain ⟨bs, rfl, -⟩ := h.arr
    refine itemsHaveText_iff.mpr fun b hb => ?_
    obtain ⟨i, hi⟩ := List.getElem?_of_mem hb
    obtain ⟨_, a, ⟨⟩, ha, hba⟩ := h.symm.item hi
    have hmem := List.mem_of_getElem? ha
    exact ih a hmem hba.symm (itemsHaveText_iff.mp hv a hmem)
  | obj ms ih =>
    obtain ⟨ns, rfl, -⟩ := h.obj
    refine membersHaveText_iff.mpr fun ⟨name, b⟩ hb => ?_
    obtain ⟨_, a, ⟨⟩, ha, hba⟩ := h.symm.member hb
    exact ih name a ha hba.symm (membersHaveText_iff.mp hv _ ha)
  | _ =>
    cases h.parts
    exact hv

theorem hasText_eq (h : v.Reordered w) : v.hasText = w.hasText :=
  Bool.eq_iff_iff.mpr ⟨h.hasText, h.symm.hasText⟩

theorem leads (h : v.Reordered w) (ha : v.Leads tokens a) :
    ∃ b, w.Leads tokens b ∧ a.Reordered b := by
  induction ha with
  | root => exact ⟨w, .root, h⟩
  | member hparent hvalue ih =>
    obtain ⟨parent, hleads, hab⟩ := ih
    obtain ⟨ns, b, rfl, hmem, hb⟩ := hab.member hvalue
    exact ⟨b, hleads.member hmem, hb⟩
  | item hparent hvalue ih =>
    obtain ⟨parent, hleads, hab⟩ := ih
    obtain ⟨bs, b, rfl, hitem, hb⟩ := hab.item hvalue
    exact ⟨b, hleads.item hitem, hb⟩

theorem descend {token : String} (h : v.Reordered w) (ha : Pointer.descend v token = .ok a) :
    ∃ b, Pointer.descend w token = .ok b ∧ a.Reordered b := by
  cases v with
  | obj ms =>
    obtain ⟨ns, rfl, hrel⟩ := h.obj
    specialize hrel token
    unfold Pointer.descend at ha ⊢
    dsimp only at ha ⊢
    generalize Members.get? ms token = found at hrel ha
    generalize Members.get? ns token = found' at hrel ⊢
    cases hrel with
    | none => cases ha
    | some hab =>
      cases ha
      exact ⟨_, rfl, hab⟩
  | arr as =>
    obtain ⟨i, hi, ha⟩ := Except.bind_eq_ok.mp ha
    split at ha
    case h_1 item hitem =>
      cases ha
      obtain ⟨bs, b, rfl, hb, hab⟩ := h.item hitem
      refine ⟨b, ?_, hab⟩
      simp [Pointer.descend, hi, hb, bind, Except.bind]
    case h_2 => cases ha
  | _ => cases ha

theorem resolve (h : v.Reordered w) (ha : Pointer.resolve v tokens = .ok a) :
    ∃ b, Pointer.resolve w tokens = .ok b ∧ a.Reordered b := by
  induction tokens generalizing v w with
  | nil =>
    rw [← Except.pure_eq_ok.mp ha]
    exact ⟨w, rfl, h⟩
  | cons token rest ih =>
    rw [Pointer.resolve, List.foldlM_cons, Except.bind_eq_ok] at ha
    obtain ⟨next, hnext, hrest⟩ := ha
    obtain ⟨next', hnext', hab⟩ := h.descend hnext
    obtain ⟨b, hb, hab'⟩ := ih hab hrest
    refine ⟨b, ?_, hab'⟩
    rw [Pointer.resolve, List.foldlM_cons, hnext']
    exact hb

end Reordered

end Json

end JsonSchema

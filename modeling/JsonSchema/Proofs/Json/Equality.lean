import JsonSchema.Proofs.Json.Members
import JsonSchema.Proofs.Number.Multiple
import Mathlib.Data.List.Forall2
import Mathlib.Data.List.Perm.Subperm

/-!
# Equal values

Equality of values is an equivalence, as objects have each name once. Equal values have equal
items at the same indices and equal members under the same names.
-/

namespace JsonSchema.Json

variable {v w u : Json} {as bs : List Json} {ms ns : Members Json} {name : String}

/-! ## Parts -/

attribute [local simp] same sameItems sameMembers

theorem sameItems_iff : sameItems as bs = true ↔ List.Forall₂ (fun a b => a.same b = true) as bs := by
  induction as generalizing bs with
  | nil => cases bs <;> simp
  | cons a as ih => cases bs <;> simp [ih]

theorem sameMembers_iff : sameMembers ms ns = true ↔
    ∀ name a, (name, a) ∈ ms → ∃ b, Members.get? ns name = some b ∧ a.same b = true := by
  induction ms with
  | nil => simp
  | cons first rest ih =>
    obtain ⟨name, a⟩ := first
    rw [sameMembers, Bool.and_eq_true, ih]
    constructor
    · rintro ⟨hfirst, hrest⟩ name' a' hmem
      rcases List.mem_cons.mp hmem with heq | hmem
      · obtain ⟨rfl, rfl⟩ := Prod.mk.inj heq
        cases hget : Members.get? ns name' with
        | none => simp [hget] at hfirst
        | some b => exact ⟨b, rfl, by simpa [hget] using hfirst⟩
      · exact hrest _ _ hmem
    · intro hall
      refine ⟨?_, fun name' a' hmem => hall _ _ (List.mem_cons_of_mem _ hmem)⟩
      obtain ⟨b, hget, hsame⟩ := hall name a List.mem_cons_self
      simpa [hget] using hsame

theorem null_same_iff : null.same w = true ↔ w = null := by
  cases w <;> simp

theorem bool_same_iff {b : Bool} : (bool b).same w = true ↔ w = bool b := by
  cases w with
  | bool b' => simpa using eq_comm
  | _ => simp

theorem str_same_iff {s : String} : (str s).same w = true ↔ w = str s := by
  cases w with
  | str s' => simpa using eq_comm
  | _ => simp

theorem num_same_iff {n : Number} : (num n).same w = true ↔ ∃ m, w = num m ∧ n.same m = true := by
  cases w <;> simp

theorem arr_same_iff : (arr as).same w = true ↔
    ∃ bs, w = arr bs ∧ List.Forall₂ (fun a b => a.same b = true) as bs := by
  cases w <;> simp [sameItems_iff]

theorem obj_same_iff : (obj ms).same w = true ↔ ∃ ns, w = obj ns ∧ ms.length = ns.length ∧
    ∀ name a, (name, a) ∈ ms → ∃ b, Members.get? ns name = some b ∧ a.same b = true := by
  cases w <;> simp [sameMembers_iff]

theorem same_obj_iff : (obj ms).same (obj ns) = true ↔ ms.length = ns.length ∧
    ∀ name a, (name, a) ∈ ms → ∃ b, Members.get? ns name = some b ∧ a.same b = true := by
  simp [sameMembers_iff]

theorem names_subset_of_same (h : (obj ms).same (obj ns) = true) (hms : ms.names.Nodup) :
    ns.names ⊆ ms.names := by
  rw [same_obj_iff] at h
  obtain ⟨hlength, hall⟩ := h
  have hsubset : ms.names ⊆ ns.names := by
    intro name hname
    obtain ⟨entry, hentry, rfl⟩ := List.mem_map.mp hname
    obtain ⟨b, hget, -⟩ := hall _ _ hentry
    exact List.mem_map.mpr ⟨_, Members.mem_of_get? hget, rfl⟩
  have hperm := (List.subperm_of_subset hms hsubset).perm_of_length_le
    (by simp [Members.names, hlength])
  exact hperm.symm.subset

/-! ## An equivalence -/

/-- Induction over a value by way of its items and members. -/
@[elab_as_elim]
theorem induction_parts {P : Json → Prop} (null : P null) (bool : ∀ b, P (bool b))
    (num : ∀ n, P (num n)) (str : ∀ s, P (str s))
    (arr : ∀ items, (∀ item ∈ items, P item) → P (arr items))
    (obj : ∀ members : Members Json, (∀ name value, (name, value) ∈ members → P value) →
      P (obj members)) : ∀ v, P v
  | .null => null
  | .bool b => bool b
  | .num n => num n
  | .str s => str s
  | .arr items => arr items fun item _ => induction_parts null bool num str arr obj item
  | .obj members => obj members fun _ value _ => induction_parts null bool num str arr obj value
termination_by v => sizeOf v
decreasing_by
  · have := List.sizeOf_lt_of_mem ‹item ∈ items›
    simp only [Json.arr.sizeOf_spec]
    omega
  · rename_i name hmem
    have := List.sizeOf_lt_of_mem hmem
    simp only [Json.obj.sizeOf_spec, Prod.mk.sizeOf_spec] at this ⊢
    omega

theorem same_trans (h : v.same w = true) (h' : w.same u = true) : v.same u = true := by
  induction v using induction_parts generalizing w u with
  | null =>
    rw [null_same_iff] at h
    rwa [h] at h'
  | bool b =>
    rw [bool_same_iff] at h
    rwa [h] at h'
  | str s =>
    rw [str_same_iff] at h
    rwa [h] at h'
  | num n =>
    rw [num_same_iff] at h ⊢
    obtain ⟨m, rfl, hnm⟩ := h
    rw [num_same_iff] at h'
    obtain ⟨k, rfl, hmk⟩ := h'
    exact ⟨k, rfl, Number.same_trans hnm hmk⟩
  | arr as ih =>
    rw [arr_same_iff] at h ⊢
    obtain ⟨bs, rfl, hab⟩ := h
    rw [arr_same_iff] at h'
    obtain ⟨cs, rfl, hbc⟩ := h'
    refine ⟨cs, rfl, ?_⟩
    induction hab generalizing cs with
    | nil => exact hbc
    | cons hfirst _ ihrest =>
      obtain _ | ⟨hfirst', hrest'⟩ := hbc
      rw [List.forall_mem_cons] at ih
      exact .cons (ih.1 hfirst hfirst') (ihrest ih.2 _ hrest')
  | obj ms ih =>
    rw [obj_same_iff] at h ⊢
    obtain ⟨ns, rfl, hlength, hall⟩ := h
    rw [obj_same_iff] at h'
    obtain ⟨ks, rfl, hlength', hall'⟩ := h'
    refine ⟨ks, rfl, hlength.trans hlength', fun name a ha => ?_⟩
    obtain ⟨b, hb, hab⟩ := hall name a ha
    obtain ⟨c, hc, hbc⟩ := hall' name b (Members.mem_of_get? hb)
    exact ⟨c, hc, ih name a ha hab hbc⟩

theorem same_symm (hv : v.isWellFormed = true) (hw : w.isWellFormed = true)
    (h : v.same w = true) : w.same v = true := by
  induction v using induction_parts generalizing w with
  | null =>
    rw [null_same_iff] at h
    rw [h, null_same_iff]
  | bool b =>
    rw [bool_same_iff] at h
    rw [h, bool_same_iff]
  | str s =>
    rw [str_same_iff] at h
    rw [h, str_same_iff]
  | num n =>
    rw [num_same_iff] at h
    obtain ⟨m, rfl, hnm⟩ := h
    rw [num_same_iff]
    exact ⟨n, rfl, Number.same_symm hnm⟩
  | arr as ih =>
    rw [arr_same_iff] at h
    obtain ⟨bs, rfl, hab⟩ := h
    rw [arr_same_iff]
    refine ⟨as, rfl, ?_⟩
    have has : ∀ a ∈ as, a.isWellFormed = true := fun a ha => isWellFormed_item hv ha
    have hbs : ∀ b ∈ bs, b.isWellFormed = true := fun b hb => isWellFormed_item hw hb
    clear hv hw
    induction hab with
    | nil => exact .nil
    | cons hfirst _ ihrest =>
      rw [List.forall_mem_cons] at ih has hbs
      exact .cons (ih.1 has.1 hbs.1 hfirst) (ihrest ih.2 has.2 hbs.2)
  | obj ms ih =>
    have hparts := h
    rw [obj_same_iff] at hparts
    obtain ⟨ns, rfl, hlength, hall⟩ := hparts
    rw [obj_same_iff]
    refine ⟨ms, rfl, hlength.symm, fun name b hb => ?_⟩
    have hname := names_subset_of_same h (isWellFormed_names hv)
      (List.mem_map.mpr ⟨_, hb, rfl⟩)
    obtain ⟨⟨_, a⟩, ha, rfl⟩ := List.mem_map.mp hname
    obtain ⟨b', hb', hab⟩ := hall _ a ha
    have hbb' := Members.get?_of_mem (isWellFormed_names hw) hb
    rw [hb'] at hbb'
    obtain rfl := Option.some.inj hbb'
    exact ⟨a, Members.get?_of_mem (isWellFormed_names hv) ha,
      ih _ a ha (isWellFormed_member hv ha) (isWellFormed_member hw hb) hab⟩

end JsonSchema.Json

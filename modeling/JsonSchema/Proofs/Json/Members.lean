import JsonSchema.Json.Basic
import Mathlib.Data.List.Forall2

/-!
# Members of an object
-/

namespace JsonSchema

/-! ## Lists side by side -/

theorem exists_getElem?_of_length {α β : Type} {as : List α} {bs : List β} {index : Nat} {a : α}
    (hlength : as.length = bs.length) (h : as[index]? = some a) : ∃ b, bs[index]? = some b := by
  have hlt : index < as.length := (List.getElem?_eq_some_iff.mp h).1
  exact ⟨bs[index], List.getElem?_eq_getElem (hlength ▸ hlt)⟩

theorem rel_of_getElem? {α β : Type} {r : α → β → Prop} {as : List α} {bs : List β} {index : Nat}
    {a : α} {b : β} (h : List.Forall₂ r as bs) (ha : as[index]? = some a)
    (hb : bs[index]? = some b) : r a b := by
  obtain ⟨hlt, rfl⟩ := List.getElem?_eq_some_iff.mp ha
  obtain ⟨hlt', rfl⟩ := List.getElem?_eq_some_iff.mp hb
  exact h.get hlt hlt'

/-! ## Tables -/

section

variable {κ α : Type} [BEq κ] [LawfulBEq κ] {table : List (κ × α)} {key : κ} {value : α}

theorem mem_of_lookup (h : table.lookup key = some value) : (key, value) ∈ table := by
  obtain ⟨before, after, htable, -⟩ := List.lookup_eq_some_iff.mp h
  rw [htable]
  simp

theorem lookup_of_mem (hkeys : (table.map (·.1)).Nodup) (h : (key, value) ∈ table) :
    table.lookup key = some value := by
  induction table with
  | nil => simp at h
  | cons first rest ih =>
    rw [List.map_cons, List.nodup_cons] at hkeys
    rw [List.lookup_cons]
    rcases List.mem_cons.mp h with rfl | hrest
    · simp
    · have hne : key ≠ first.1 := by
        rintro rfl
        exact hkeys.1 (List.mem_map.mpr ⟨_, hrest, rfl⟩)
      rw [beq_false_of_ne hne]
      exact ih hkeys.2 hrest

theorem lookup_eq_none_iff : table.lookup key = none ↔ key ∉ table.map (·.1) := by
  rw [List.lookup_eq_none_iff, List.mem_map]
  constructor
  · rintro h ⟨entry, hentry, rfl⟩
    simpa using h entry hentry
  · intro h entry hentry
    exact bne_iff_ne.mpr fun heq => h ⟨entry, hentry, heq.symm⟩

end

namespace Members

variable {α : Type} {members : Members α} {name : String} {value : α}

theorem mem_of_get? (h : members.get? name = some value) : (name, value) ∈ members :=
  mem_of_lookup h

theorem get?_of_mem (hnames : members.names.Nodup) (h : (name, value) ∈ members) :
    members.get? name = some value :=
  lookup_of_mem hnames h

theorem get?_eq_none_iff : members.get? name = none ↔ name ∉ members.names :=
  lookup_eq_none_iff

theorem get?_cons (first : String × α) (rest : Members α) : Members.get? (first :: rest) name =
    if name = first.1 then some first.2 else rest.get? name := by
  rw [get?, get?, List.lookup_cons]
  by_cases h : name = first.1
  · rw [if_pos h, beq_iff_eq.mpr h]
  · rw [if_neg h, beq_false_of_ne h]

theorem rel_get? {β : Type} (r : String → α → β → Prop) {others : Members β}
    (h : List.Forall₂ (fun entry other => entry.1 = other.1 ∧ r other.1 entry.2 other.2) members
      others) (name : String) : Option.Rel (r name) (members.get? name) (others.get? name) := by
  induction h with
  | nil => exact .none
  | cons hfirst _ ih =>
    rw [get?_cons, get?_cons, hfirst.1]
    split
    case isTrue heq => exact .some (heq ▸ hfirst.2)
    case isFalse => exact ih

theorem get?_put (other : String) :
    (members.put name value).get? other =
      if other = name then some value else members.get? other := by
  induction members with
  | nil => exact get?_cons _ _
  | cons first rest ih =>
    rw [put]
    by_cases hfirst : first.1 = name
    · rw [if_pos (beq_iff_eq.mpr hfirst), get?_cons, get?_cons, hfirst]
      split <;> rfl
    · rw [if_neg (mt beq_iff_eq.mp hfirst), get?_cons, get?_cons, ih]
      by_cases hother : other = first.1
      · rw [if_pos hother, if_pos hother, if_neg (hother ▸ hfirst)]
      · rw [if_neg hother, if_neg hother]

theorem mem_names_put {other : String} :
    other ∈ (members.put name value).names ↔ other = name ∨ other ∈ members.names := by
  rw [← Decidable.not_iff_not, not_or, ← get?_eq_none_iff, ← get?_eq_none_iff, get?_put]
  by_cases h : other = name <;> simp [h]

theorem put_of_notMem (value : α) (h : name ∉ members.names) :
    members.put name value = members ++ [(name, value)] := by
  induction members with
  | nil => rfl
  | cons first rest ih =>
    rw [names, List.map_cons, List.mem_cons, not_or] at h
    rw [put, beq_false_of_ne (Ne.symm h.1), ih h.2]
    rfl

theorem nodup_put (h : members.names.Nodup) : (members.put name value).names.Nodup := by
  induction members with
  | nil => simp [names, put]
  | cons first rest ih =>
    rw [put]
    split
    case isTrue => exact h
    case isFalse hne =>
      rw [names, List.map_cons, List.nodup_cons] at h ⊢
      refine ⟨fun hmem => ?_, ih h.2⟩
      rcases mem_names_put.mp hmem with heq | hrest
      · exact hne (beq_iff_eq.mpr heq)
      · exact h.1 hrest

theorem mem_put {entry : String × α} (h : entry ∈ members.put name value) :
    entry ∈ members ∨ entry = (name, value) := by
  induction members with
  | nil => exact .inr (List.mem_singleton.mp h)
  | cons first rest ih =>
    rw [put] at h
    split at h
    case isTrue heq =>
      rw [beq_iff_eq.mp heq] at h
      rcases List.mem_cons.mp h with hfirst | hrest
      · exact .inr hfirst
      · exact .inl (List.mem_cons_of_mem _ hrest)
    case isFalse =>
      rcases List.mem_cons.mp h with hfirst | hrest
      · exact .inl (hfirst ▸ List.mem_cons_self)
      · exact (ih hrest).imp_left (List.mem_cons_of_mem _)

def itemsAt (schema : Members Json) (keyword : String) : List Json :=
  match schema.get? keyword with
  | some (.arr items) => items
  | _ => []

def membersAt (schema : Members Json) (keyword : String) : Members Json :=
  match schema.get? keyword with
  | some (.obj members) => members
  | _ => []

end Members

/-! ## Well-formed documents -/

def Json.IsFlat : Json → Prop
  | .arr _ | .obj _ => False
  | _ => True

mutual

/-- Whether every object in a value has each name once. -/
def Json.isWellFormed : Json → Bool
  | .arr items => areWellFormedItems items
  | .obj members => decide (Members.names members).Nodup && areWellFormedMembers members
  | _ => true

def areWellFormedItems : List Json → Bool
  | [] => true
  | item :: items => item.isWellFormed && areWellFormedItems items

def areWellFormedMembers : List (String × Json) → Bool
  | [] => true
  | (_, value) :: members => value.isWellFormed && areWellFormedMembers members

end

namespace Json

variable {items : List Json} {item : Json} {members : Members Json} {name : String} {value : Json}

theorem areWellFormedItems_iff :
    areWellFormedItems items = true ↔ ∀ item ∈ items, item.isWellFormed = true := by
  induction items with
  | nil => exact iff_of_true rfl (List.forall_mem_nil _)
  | cons first rest ih => rw [areWellFormedItems, Bool.and_eq_true, ih, List.forall_mem_cons]

theorem areWellFormedMembers_iff :
    areWellFormedMembers members = true ↔ ∀ member ∈ members, member.2.isWellFormed = true := by
  induction members with
  | nil => exact iff_of_true rfl (List.forall_mem_nil _)
  | cons first rest ih => rw [areWellFormedMembers, Bool.and_eq_true, ih, List.forall_mem_cons]

theorem arr_isWellFormed_iff :
    (arr items).isWellFormed = true ↔ ∀ item ∈ items, item.isWellFormed = true := by
  rw [isWellFormed, areWellFormedItems_iff]

theorem obj_isWellFormed_iff : (obj members).isWellFormed = true ↔
    members.names.Nodup ∧ ∀ member ∈ members, member.2.isWellFormed = true := by
  rw [isWellFormed, Bool.and_eq_true, decide_eq_true_iff, areWellFormedMembers_iff]

theorem isWellFormed_arr (h : ∀ item ∈ items, item.isWellFormed = true) :
    (arr items).isWellFormed = true := by
  rwa [arr_isWellFormed_iff]

theorem isWellFormed_obj (hnames : members.names.Nodup)
    (h : ∀ name value, (name, value) ∈ members → value.isWellFormed = true) :
    (obj members).isWellFormed = true := by
  rw [obj_isWellFormed_iff]
  exact ⟨hnames, fun member hmember => h member.1 member.2 hmember⟩

theorem isWellFormed_item (h : (arr items).isWellFormed = true) (hitem : item ∈ items) :
    item.isWellFormed = true := by
  rw [arr_isWellFormed_iff] at h
  exact h item hitem

theorem isWellFormed_names (h : (obj members).isWellFormed = true) : members.names.Nodup := by
  rw [obj_isWellFormed_iff] at h
  exact h.1

theorem isWellFormed_member (h : (obj members).isWellFormed = true)
    (hvalue : (name, value) ∈ members) : value.isWellFormed = true := by
  rw [obj_isWellFormed_iff] at h
  exact h.2 _ hvalue

end Json

/-! ## Depth of a value -/

mutual

/-- How many containers lead to the innermost value. -/
def Json.depth : Json → Nat
  | .arr items => itemsDepth items
  | .obj members => membersDepth members
  | _ => 0

def itemsDepth : List Json → Nat
  | [] => 0
  | item :: items => max (item.depth + 1) (itemsDepth items)

def membersDepth : List (String × Json) → Nat
  | [] => 0
  | (_, value) :: members => max (value.depth + 1) (membersDepth members)

end

theorem Json.depth_item {items : List Json} {item : Json} (h : item ∈ items) :
    item.depth < (Json.arr items).depth := by
  rw [Json.depth]
  induction items with
  | nil => cases h
  | cons first rest ih =>
    rw [itemsDepth]
    rcases List.mem_cons.mp h with rfl | h
    · omega
    · have := ih h
      omega

theorem Json.depth_member {members : Members Json} {name : String} {value : Json}
    (h : (name, value) ∈ members) : value.depth < (Json.obj members).depth := by
  rw [Json.depth]
  induction members with
  | nil => cases h
  | cons first rest ih =>
    rw [membersDepth]
    rcases List.mem_cons.mp h with rfl | h
    · dsimp only
      omega
    · have := ih h
      omega

end JsonSchema

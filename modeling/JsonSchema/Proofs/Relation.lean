import Mathlib.Data.List.Forall2
import Mathlib.Logic.Relation

/-!
# Lists beside each other, and ways without an end

What the elements of two lists have in common pointwise, and where the steps of a relation lead.
-/

namespace JsonSchema

open Relation (TransGen ReflTransGen)

/-! ## Lists -/

theorem exists_of_forall₂ {α β : Type} {R : α → β → Prop} {as : List α} {bs : List β}
    (h : List.Forall₂ R as bs) {a : α} (ha : a ∈ as) : ∃ b ∈ bs, R a b := by
  induction h with
  | nil => cases ha
  | cons hfirst _ ih =>
    rcases List.mem_cons.mp ha with rfl | ha
    · exact ⟨_, List.mem_cons_self, hfirst⟩
    · obtain ⟨b, hb, hrelated⟩ := ih ha
      exact ⟨b, List.mem_cons_of_mem _ hb, hrelated⟩

/-! ## Ways -/

variable {α : Type} {r : α → α → Prop} {a : α}

/-- A way from `a` comes to something that leads back to itself. -/
def LeadsIntoCircle (r : α → α → Prop) (a : α) : Prop :=
  ∃ b, ReflTransGen r a b ∧ TransGen r b b

/-- There is always one more step to take. -/
theorem LeadsIntoCircle.step (h : LeadsIntoCircle r a) : ∃ b, r a b ∧ LeadsIntoCircle r b := by
  obtain ⟨there, hlead, hcircle⟩ := h
  rcases hlead.cases_head with rfl | ⟨next, hnext, hlead⟩
  · obtain ⟨next, hnext, hback⟩ := TransGen.head'_iff.mp hcircle
    exact ⟨next, hnext, a, hback, hcircle⟩
  · exact ⟨next, hnext, there, hlead, hcircle⟩

/-- Where every step goes to something larger nothing leads back. -/
theorem not_leadsIntoCircle_of_lt (height : α → Nat) (h : ∀ a b, r a b → height a < height b) :
    ¬ LeadsIntoCircle r a := by
  rintro ⟨there, -, hcircle⟩
  have hsteps : ∀ {b c}, TransGen r b c → height b < height c := by
    intro b c htrans
    induction htrans with
    | single hfirst => exact h _ _ hfirst
    | tail _ hlast ih => exact Nat.lt_trans ih (h _ _ hlast)
  exact Nat.lt_irrefl _ (hsteps hcircle)

end JsonSchema

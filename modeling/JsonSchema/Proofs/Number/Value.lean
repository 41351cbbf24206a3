import JsonSchema.Number.Basic
import Mathlib.Data.Rat.Cast.Order
import Mathlib.Tactic.Linarith
import Mathlib.Tactic.Ring

/-!
# The exact value of a number

Numbers are compared in units of the smallest binary64 number. Here they get their values as
rational numbers, and the comparisons are shown to be those of the values.
-/

namespace JsonSchema

def Binary64.value (x : Binary64) : ℚ :=
  (if x.negative then -1 else 1) * x.significand * 2 ^ x.scale / 2 ^ unitBits

def Number.value : Number → ℚ
  | .int n => n
  | .float x => x.value

theorem unit_pos : (0 : ℚ) < 2 ^ unitBits := by positivity

theorem Binary64.scaled_eq (x : Binary64) : (x.scaled : ℚ) = x.value * 2 ^ unitBits := by
  simp only [Binary64.scaled, Binary64.value, Binary64.magnitude, Nat.pow_eq]
  rw [div_mul_cancel₀ _ unit_pos.ne']
  split <;> push_cast <;> ring

theorem Number.scaled_eq (n : Number) : (n.scaled : ℚ) = n.value * 2 ^ unitBits := by
  cases n with
  | int n =>
    simp only [Number.scaled, Number.value, Nat.pow_eq]
    push_cast
    rfl
  | float x => exact x.scaled_eq

/-! ## Comparisons -/

theorem Number.lt_iff (a b : Number) : a.lt b = true ↔ a.value < b.value := by
  simp only [Number.lt, decide_eq_true_eq]
  rw [← Int.cast_lt (R := ℚ), a.scaled_eq, b.scaled_eq, mul_lt_mul_iff_left₀ unit_pos]

theorem Number.le_iff (a b : Number) : a.le b = true ↔ a.value ≤ b.value := by
  simp only [Number.le, decide_eq_true_eq]
  rw [← Int.cast_le (R := ℚ), a.scaled_eq, b.scaled_eq, mul_le_mul_iff_left₀ unit_pos]

/-! ## Integers -/

theorem Binary64.natAbs_scaled (x : Binary64) : x.scaled.natAbs = x.magnitude := by
  unfold Binary64.scaled
  split <;> simp

theorem Binary64.isIntegral_iff (x : Binary64) : x.isIntegral = true ↔ ∃ k : ℤ, x.value = k := by
  have hdvd : x.isIntegral = true ↔ ((2 ^ unitBits : ℕ) : ℤ) ∣ x.scaled := by
    rw [Int.natCast_dvd, x.natAbs_scaled, Nat.dvd_iff_mod_eq_zero]
    simp [Binary64.isIntegral]
  rw [hdvd]
  constructor
  · rintro ⟨k, hk⟩
    refine ⟨k, mul_right_cancel₀ unit_pos.ne' ?_⟩
    rw [← x.scaled_eq, hk]
    push_cast
    ring
  · rintro ⟨k, hk⟩
    refine ⟨k, ?_⟩
    have h := x.scaled_eq
    rw [hk] at h
    exact_mod_cast h.trans (mul_comm _ _)

theorem Number.isIntegral_iff (n : Number) : n.isIntegral = true ↔ ∃ k : ℤ, n.value = k := by
  cases n with
  | int n => simp [Number.isIntegral, Number.value]
  | float x => exact x.isIntegral_iff

end JsonSchema

import JsonSchema.Number.Decimal
import Mathlib.Algebra.Order.Floor.Semifield
import Mathlib.Data.Rat.Floor
import Mathlib.Tactic.Linarith
import Mathlib.Tactic.Ring

/-!
# The value of a decimal

A decimal can be written with several exponents. What its operations give depends on its value
only, as far as values go.
-/

namespace JsonSchema

/-! ## Lengths -/

theorem decimalLength_of_lt {n : Nat} (h : n < 10) : decimalLength n = 1 := by
  rw [decimalLength, Nat.toDigits_eq_if (by omega), if_pos h]
  rfl

theorem decimalLength_of_ge {n : Nat} (h : 10 ≤ n) :
    decimalLength n = decimalLength (n / 10) + 1 := by
  rw [decimalLength, Nat.toDigits_eq_if (by omega), if_neg (by omega), List.length_append]
  rfl

theorem decimalLength_pos (n : Nat) : 0 < decimalLength n :=
  List.length_pos_iff.mpr Nat.toDigits_ne_nil

theorem lt_pow_decimalLength (n : Nat) : n < 10 ^ decimalLength n := by
  induction n using Nat.strongRecOn with
  | ind n ih =>
    by_cases h : n < 10
    · rw [decimalLength_of_lt h]
      omega
    · have := ih (n / 10) (by omega)
      rw [decimalLength_of_ge (by omega), pow_succ]
      omega

theorem pow_le_of_decimalLength {n : Nat} (hn : 0 < n) : 10 ^ (decimalLength n - 1) ≤ n := by
  induction n using Nat.strongRecOn with
  | ind n ih =>
    by_cases h : n < 10
    · rw [decimalLength_of_lt h]
      omega
    · have hrec := ih (n / 10) (by omega) (by omega)
      have hpos := decimalLength_pos (n / 10)
      rw [decimalLength_of_ge (by omega), Nat.add_sub_cancel]
      obtain ⟨k, hk⟩ := Nat.exists_eq_add_of_lt hpos
      rw [hk] at hrec ⊢
      simp only [Nat.zero_add, Nat.add_sub_cancel] at hrec ⊢
      rw [pow_succ]
      omega

theorem decimalLength_le {n k : Nat} (hk : 0 < k) (h : n < 10 ^ k) : decimalLength n ≤ k := by
  rcases Nat.eq_zero_or_pos n with rfl | hn
  · rwa [decimalLength_of_lt (by omega)]
  · have hlt := Nat.lt_of_le_of_lt (pow_le_of_decimalLength hn) h
    have := (Nat.pow_lt_pow_iff_right (by omega)).mp hlt
    omega

theorem decimalLength_shift {n : Nat} (hn : 0 < n) (k : Nat) :
    decimalLength (n * 10 ^ k) = decimalLength n + k := by
  induction k with
  | zero => simp
  | succ k ih =>
    have hpos : 0 < n * 10 ^ k := Nat.mul_pos hn (by positivity)
    rw [pow_succ, ← Nat.mul_assoc, decimalLength_of_ge (by omega),
      Nat.mul_div_cancel _ (by omega), ih, Nat.add_assoc]

/-! ## Rounding -/

theorem roundHalfEven_scale (num den : Nat) {k : Nat} (hk : 0 < k) :
    roundHalfEven (num * k) (den * k) = roundHalfEven num den := by
  simp only [roundHalfEven, Nat.mul_div_mul_right _ _ hk, Nat.mul_mod_mul_right, ← Nat.mul_assoc,
    Nat.mul_lt_mul_right hk]

theorem roundHalfEven_exact (num : Nat) {den : Nat} (hden : 0 < den) :
    roundHalfEven (num * den) den = num := by
  simp [roundHalfEven, Nat.mul_div_cancel _ hden, hden]

theorem le_roundHalfEven (num den : Nat) : num / den ≤ roundHalfEven num den := by
  simp only [roundHalfEven]
  split
  · exact Nat.le_refl _
  · split <;> omega

namespace Decimal

def value (d : Decimal) : ℚ := d.coefficient * 10 ^ d.exponent

theorem ten_zpow_pos (e : ℤ) : (0 : ℚ) < 10 ^ e := zpow_pos (by norm_num) e

theorem ten_zpow_split {e m : ℤ} (h : m ≤ e) :
    ((10 ^ (e - m).toNat : ℕ) : ℚ) * 10 ^ m = 10 ^ e := by
  have hsum : e = (e - m).toNat + m := by omega
  push_cast
  conv_rhs => rw [hsum, zpow_add₀ (by norm_num), zpow_natCast]

theorem shift_of_value_eq {a b : Decimal} (h : a.value = b.value) (he : b.exponent ≤ a.exponent) :
    b = ⟨a.coefficient * 10 ^ (a.exponent - b.exponent).toNat, b.exponent⟩ := by
  rw [value, value, ← ten_zpow_split he, ← mul_assoc] at h
  have := mul_right_cancel₀ (ten_zpow_pos b.exponent).ne' h
  obtain ⟨c, e⟩ := b
  simp only [Decimal.mk.injEq, and_true]
  exact_mod_cast this.symm

/-! ## Rounding -/

theorem round_shift (c k : Nat) (e : ℤ) :
    (round ⟨c * 10 ^ k, e - k⟩).value = (round ⟨c, e⟩).value := by
  rcases Nat.eq_zero_or_pos c with rfl | hc
  · simp [round, value, roundHalfEven, decimalLength_of_lt, precision]
  simp only [round, value, decimalLength_shift hc, Nat.pow_eq]
  by_cases hlong : precision ≤ decimalLength c
  -- Both spellings lose the same digits.
  · have hexcess : decimalLength c + k - precision = decimalLength c - precision + k := by omega
    rw [hexcess, pow_add, roundHalfEven_scale _ _ (Nat.pow_pos (by omega))]
    congr 2
    push_cast
    ring
  -- The shorter spelling loses nothing, and the longer one loses some of its zeros at most.
  · have hnone : decimalLength c - precision = 0 := by omega
    obtain ⟨j, hj⟩ : ∃ j, decimalLength c + k - precision + j = k :=
      ⟨k - (decimalLength c + k - precision), by omega⟩
    rw [hnone, pow_zero, ← Nat.mul_one c, roundHalfEven_exact _ Nat.one_pos, Nat.mul_one]
    generalize decimalLength c + k - precision = i at hj
    subst hj
    rw [show c * 10 ^ (i + j) = c * 10 ^ j * 10 ^ i by ring, roundHalfEven_exact _ (by positivity)]
    have hexponent : e + (0 : ℕ) = (e - (i + j : ℕ) + i) + j := by push_cast; ring
    rw [hexponent, zpow_add₀ (by norm_num : (10 : ℚ) ≠ 0) _ (j : ℤ), zpow_natCast]
    push_cast
    ring

theorem round_congr {a b : Decimal} (h : a.value = b.value) : (round a).value = (round b).value := by
  wlog he : b.exponent ≤ a.exponent generalizing a b
  · exact (this h.symm (by omega)).symm
  have hshift := shift_of_value_eq h he
  have hexponent : b.exponent = a.exponent - (a.exponent - b.exponent).toNat := by omega
  rw [hshift]
  conv_lhs => rw [← round_shift _ (a.exponent - b.exponent).toNat]
  rw [← hexponent]

theorem round_short {c : Nat} (e : ℤ) (h : c < 10 ^ precision) : round ⟨c, e⟩ = ⟨c, e⟩ := by
  have hnone : decimalLength c - precision = 0 := by
    have := decimalLength_le (by decide) h
    omega
  have hround : roundHalfEven c 1 = c := by
    simpa using roundHalfEven_exact c Nat.one_pos
  simp [round, hnone, hround]

theorem round_coefficient_ne_zero {d : Decimal} (h : d.coefficient ≠ 0) :
    (round d).coefficient ≠ 0 := by
  have hlow := pow_le_of_decimalLength (Nat.pos_of_ne_zero h)
  have hpow : 10 ^ (decimalLength d.coefficient - precision) ≤ d.coefficient := by
    refine Nat.le_trans (Nat.pow_le_pow_right (by omega) ?_) hlow
    rw [precision]
    omega
  have hquotient := Nat.div_pos hpow (by positivity)
  have := le_roundHalfEven d.coefficient (10 ^ (decimalLength d.coefficient - precision))
  simp only [round, Nat.pow_eq]
  omega

/-! ## Common exponents -/

theorem align_left (a b : Decimal) :
    ((align a b).left : ℚ) * 10 ^ (align a b).exponent = a.value := by
  simp only [align, value, Nat.pow_eq]
  rw [Nat.cast_mul, mul_assoc, ten_zpow_split (min_le_left _ _)]

theorem align_right (a b : Decimal) :
    ((align a b).right : ℚ) * 10 ^ (align a b).exponent = b.value := by
  simp only [align, value, Nat.pow_eq]
  rw [Nat.cast_mul, mul_assoc, ten_zpow_split (min_le_right _ _)]

theorem le_iff (a b : Decimal) : a.le b = true ↔ a.value ≤ b.value := by
  rw [← align_left a b, ← align_right a b, mul_le_mul_iff_left₀ (ten_zpow_pos _)]
  simp [le]

theorem le_congr {a a' b b' : Decimal} (ha : a.value = a'.value) (hb : b.value = b'.value) :
    a.le b = a'.le b' := by
  rw [Bool.eq_iff_iff, le_iff, le_iff, ha, hb]

theorem sub_value (a b : Decimal) :
    (⟨(align a b).left - (align a b).right, (align a b).exponent⟩ : Decimal).value =
      max (a.value - b.value) 0 := by
  rw [value, ← align_left a b, ← align_right a b, ← sub_mul]
  rcases Nat.le_total (align a b).right (align a b).left with h | h
  · have hq : ((align a b).right : ℚ) ≤ (align a b).left := by exact_mod_cast h
    rw [Nat.cast_sub h, max_eq_left (mul_nonneg (by linarith) (ten_zpow_pos _).le)]
  · have hq : ((align a b).left : ℚ) ≤ (align a b).right := by exact_mod_cast h
    rw [Nat.sub_eq_zero_of_le h, max_eq_right
      (mul_nonpos_of_nonpos_of_nonneg (by linarith) (ten_zpow_pos _).le)]
    simp

theorem sub_congr {a a' b b' : Decimal} (ha : a.value = a'.value) (hb : b.value = b'.value) :
    (a.sub b).value = (a'.sub b').value :=
  round_congr (by rw [sub_value, sub_value, ha, hb])

/-! ## Remainders -/

theorem quotient_eq (a b : Decimal) :
    (align a b).left / (align a b).right = ⌊a.value / b.value⌋₊ := by
  rw [← align_left a b, ← align_right a b, mul_div_mul_right _ _ (ten_zpow_pos _).ne',
    Nat.floor_div_eq_div]

theorem remainder_value (a b : Decimal) :
    (⟨(align a b).left % (align a b).right, (align a b).exponent⟩ : Decimal).value =
      a.value - ⌊a.value / b.value⌋₊ * b.value := by
  rw [← quotient_eq, value]
  conv_rhs => rw [← align_left a b, ← align_right a b]
  have hsplit := Nat.div_add_mod (align a b).left (align a b).right
  have hq : ((align a b).left : ℚ) =
      (align a b).right * ((align a b).left / (align a b).right : ℕ) +
        ((align a b).left % (align a b).right : ℕ) := by exact_mod_cast hsplit.symm
  dsimp only
  rw [eq_sub_iff_add_eq]
  conv_rhs => rw [hq]
  ring

theorem remainder?_congr {a a' : Decimal} (h : a.value = a'.value) (b : Decimal) :
    Option.Rel (fun r r' => r.value = r'.value) (a.remainder? b) (a'.remainder? b) := by
  simp only [remainder?, quotient_eq, h]
  split
  · exact .none
  · exact .some (round_congr (by rw [remainder_value, remainder_value, h]))

end Decimal

end JsonSchema

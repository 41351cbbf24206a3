import JsonSchema.Proofs.Number.Multiple
import Mathlib.Algebra.Order.Ring.Abs

/-!
# Multiples within the tolerance

A remainder is found exactly where neither the step nor the remainder has too many digits. Then a
number counts as a multiple when it is within a billionth of the step of a true multiple.
-/

namespace JsonSchema

namespace Decimal

/-! ## Roundings that keep the value -/

theorem round_coefficient_le (d : Decimal) : (round d).coefficient ≤ 10 ^ precision := by
  obtain ⟨c, e⟩ := d
  by_cases hshort : c < 10 ^ precision
  · rw [round_short e hshort]
    exact hshort.le
  · have hlength : precision < decimalLength c := by
      by_contra hle
      exact hshort ((lt_pow_decimalLength c).trans_le (Nat.pow_le_pow_right (by decide) (by omega)))
    have hlt : c / 10 ^ (decimalLength c - precision) < 10 ^ precision := by
      rw [Nat.div_lt_iff_lt_mul (by positivity), ← pow_add, Nat.add_sub_cancel' hlength.le]
      exact lt_pow_decimalLength c
    have hround : roundHalfEven c (10 ^ (decimalLength c - precision)) ≤
        c / 10 ^ (decimalLength c - precision) + 1 := by
      simp only [roundHalfEven]
      split
      · omega
      · split <;> omega
    exact hround.trans hlt

theorem round_value_of_le {c : Nat} (e : ℤ) (h : c ≤ 10 ^ precision) :
    (round ⟨c, e⟩).value = c * 10 ^ e := by
  rcases h.lt_or_eq with hlt | rfl
  · rw [round_short e hlt, value]
  · have hone : (⟨10 ^ precision, e⟩ : Decimal).value = (⟨1, e + precision⟩ : Decimal).value := by
      rw [value, value, zpow_add₀ (by norm_num), zpow_natCast]
      push_cast
      ring
    rw [round_congr hone, round_short _ (by decide), ← hone, value]

theorem value_nonneg (d : Decimal) : 0 ≤ d.value :=
  mul_nonneg (Nat.cast_nonneg _) (ten_zpow_pos _).le

theorem half_le_round (d : Decimal) : d.value ≤ 2 * (round d).value := by
  obtain ⟨c, e⟩ := d
  rcases Nat.eq_zero_or_pos c with rfl | hc
  · rw [value, Nat.cast_zero, zero_mul]
    exact mul_nonneg zero_le_two (value_nonneg _)
  have hpow : 10 ^ (decimalLength c - precision) ≤ c :=
    Nat.le_trans (Nat.pow_le_pow_right (by omega) (by rw [precision]; omega))
      (pow_le_of_decimalLength hc)
  have hround := le_roundHalfEven c (10 ^ (decimalLength c - precision))
  simp only [round, value, Nat.pow_eq]
  generalize decimalLength c - precision = excess at hpow hround ⊢
  have hpos : 0 < 10 ^ excess := by positivity
  have hquotient := Nat.div_pos hpow hpos
  have hsplit := Nat.div_add_mod c (10 ^ excess)
  have hmod := Nat.mod_lt c hpos
  have hnat : c ≤ 2 * (roundHalfEven c (10 ^ excess) * 10 ^ excess) := by
    have hmul := Nat.mul_le_mul_right (10 ^ excess) hround
    have hone := Nat.mul_le_mul_right (10 ^ excess) hquotient
    rw [Nat.mul_comm (10 ^ excess)] at hsplit
    omega
  have hq : (c : ℚ) ≤ 2 * (roundHalfEven c (10 ^ excess) * 10 ^ excess) := by exact_mod_cast hnat
  rw [zpow_add₀ (by norm_num), zpow_natCast]
  calc (c : ℚ) * 10 ^ e ≤ 2 * (roundHalfEven c (10 ^ excess) * 10 ^ excess) * 10 ^ e :=
        mul_le_mul_of_nonneg_right hq (ten_zpow_pos e).le
    _ = 2 * (roundHalfEven c (10 ^ excess) * (10 ^ e * 10 ^ excess)) := by ring

/-! ## Remainders -/

variable {a s : Decimal}

/-- In units of the smaller exponent, the number or the step has few digits. -/
def Fits (a s : Decimal) : Prop :=
  (align a s).left < 10 ^ precision ∨ (align a s).right ≤ 10 ^ precision

/-- What is left of `a` by steps of `s`. -/
def rest (a s : Decimal) : ℚ := a.value - ⌊a.value / s.value⌋₊ * s.value

theorem rest_nonneg (hs : 0 < s.value) : 0 ≤ a.rest s := by
  have hfloor := Nat.floor_le (div_nonneg a.value_nonneg hs.le)
  rw [le_div_iff₀ hs] at hfloor
  exact sub_nonneg.mpr hfloor

theorem rest_lt (hs : 0 < s.value) : a.rest s < s.value := by
  have hfloor := Nat.lt_floor_add_one (a.value / s.value)
  rw [div_lt_iff₀ hs, add_mul, one_mul] at hfloor
  rw [rest]
  linarith

theorem right_pos (hs : 0 < s.value) : 0 < (align a s).right := by
  rw [← align_right a s] at hs
  exact_mod_cast pos_of_mul_pos_left hs (ten_zpow_pos _).le

theorem mod_le (hfits : Fits a s) (hs : 0 < (align a s).right) :
    (align a s).left % (align a s).right ≤ 10 ^ precision := by
  rcases hfits with hleft | hright
  · exact (Nat.mod_le _ _).trans hleft.le
  · exact (Nat.mod_lt _ hs).le.trans hright

theorem remainder?_value (hfits : Fits a s) (hs : 0 < s.value)
    (hquotient : a.value < 10 ^ precision * s.value) :
    ∃ r, a.remainder? s = some r ∧ r.value = a.rest s := by
  have hfloor : (align a s).left / (align a s).right < 10 ^ precision := by
    rw [quotient_eq, Nat.floor_lt (div_nonneg a.value_nonneg hs.le), div_lt_iff₀ hs]
    exact_mod_cast hquotient
  refine ⟨_, if_neg (Nat.not_le.mpr hfloor), ?_⟩
  rw [round_value_of_le _ (mod_le hfits (right_pos hs)), rest, ← remainder_value, value]

theorem mul_tolerance_value (hs : s.coefficient ≤ 10 ^ precision) :
    (s.mul tolerance).value = s.value / 10 ^ 9 := by
  rw [mul, tolerance, Nat.mul_one, round_value_of_le _ hs, value,
    zpow_add₀ (by norm_num : (10 : ℚ) ≠ 0), div_eq_mul_inv, ← mul_assoc]
  norm_num

theorem gap_value (hs : 0 < (align a s).right) :
    (⟨(align a s).right - (align a s).left % (align a s).right, (align a s).exponent⟩ : Decimal).value =
      s.value - a.rest s := by
  have hle := (Nat.mod_lt (align a s).left hs).le
  have hrest := remainder_value a s
  rw [value] at hrest
  rw [value, Nat.cast_sub hle, sub_mul, align_right, rest, hrest]

/--
Where the difference has too many digits, it is more than half of the step, and so is above the
tolerance, rounded or not.
-/
theorem sub_le_iff {r : Decimal} (hfits : Fits a s) (hs : 0 < s.value) (hr : r.value = a.rest s) :
    (s.sub r).value ≤ s.value / 10 ^ 9 ↔ s.value - a.rest s ≤ s.value / 10 ^ 9 := by
  have hgap := gap_value (a := a) (right_pos hs)
  have hround : (s.sub r).value = (round ⟨(align a s).right - (align a s).left % (align a s).right,
      (align a s).exponent⟩).value := by
    refine round_congr ?_
    rw [sub_value, hr, max_eq_left (sub_nonneg.mpr (rest_lt hs).le), hgap]
  by_cases hshort : (align a s).right - (align a s).left % (align a s).right ≤ 10 ^ precision
  · rw [hround, round_value_of_le _ hshort, ← hgap]
    rfl
  · have hhalf := half_le_round ⟨(align a s).right - (align a s).left % (align a s).right,
      (align a s).exponent⟩
    rw [hgap, ← hround] at hhalf
    have hlarge : s.value < 2 * (s.value - a.rest s) := by
      have hnat : (align a s).right <
          2 * ((align a s).right - (align a s).left % (align a s).right) := by
        have hmod := Nat.mod_le (align a s).left (align a s).right
        rcases hfits with hleft | hfew <;> omega
      have hq : ((align a s).right : ℚ) <
          2 * ((align a s).right - (align a s).left % (align a s).right : ℕ) := by
        exact_mod_cast hnat
      calc s.value = (align a s).right * 10 ^ (align a s).exponent := (align_right a s).symm
        _ < 2 * ((align a s).right - (align a s).left % (align a s).right : ℕ) *
            10 ^ (align a s).exponent := mul_lt_mul_of_pos_right hq (ten_zpow_pos _)
        _ = 2 * (s.value - a.rest s) := by rw [← hgap, mul_assoc]; rfl
    constructor <;> intro h <;> linarith

theorem nearMultiple?_eq (hfits : Fits a s) (hcoefficient : s.coefficient ≤ 10 ^ precision)
    (hs : 0 < s.value) (hquotient : a.value < 10 ^ precision * s.value) :
    ∃ near, a.nearMultiple? s = some near ∧ (near = true ↔
      a.rest s ≤ s.value / 10 ^ 9 ∨ s.value - a.rest s ≤ s.value / 10 ^ 9) := by
  obtain ⟨r, hremainder, hr⟩ := remainder?_value hfits hs hquotient
  refine ⟨_, by rw [nearMultiple?, hremainder, Option.map_some], ?_⟩
  rw [Bool.or_eq_true, le_iff, le_iff, mul_tolerance_value hcoefficient, hr, sub_le_iff hfits hs hr]

theorem rest_near_iff (hs : 0 < s.value) :
    (a.rest s ≤ s.value / 10 ^ 9 ∨ s.value - a.rest s ≤ s.value / 10 ^ 9) ↔
      ∃ k : ℤ, |a.value - k * s.value| ≤ s.value / 10 ^ 9 := by
  have hnonneg := rest_nonneg (a := a) hs
  have hlt := rest_lt (a := a) hs
  have hsplit : a.value = ⌊a.value / s.value⌋₊ * s.value + a.rest s := by
    rw [rest]
    ring
  generalize ⌊a.value / s.value⌋₊ = q at hsplit
  constructor
  · rintro (hrest | hgap)
    · refine ⟨q, ?_⟩
      rw [hsplit, Int.cast_natCast, add_sub_cancel_left, abs_of_nonneg hnonneg]
      exact hrest
    · refine ⟨q + 1, ?_⟩
      rw [hsplit, abs_sub_comm]
      push_cast
      rw [show ((q : ℚ) + 1) * s.value - (q * s.value + a.rest s) = s.value - a.rest s by ring,
        abs_of_nonneg (by linarith)]
      exact hgap
  · rintro ⟨k, hk⟩
    rw [abs_le] at hk
    rcases le_or_gt k q with hle | hgt
    · left
      have hkq : (k : ℚ) * s.value ≤ q * s.value :=
        mul_le_mul_of_nonneg_right (by exact_mod_cast hle) hs.le
      linarith
    · right
      have hkq : ((q : ℚ) + 1) * s.value ≤ k * s.value :=
        mul_le_mul_of_nonneg_right (by exact_mod_cast hgt) hs.le
      rw [add_mul, one_mul] at hkq
      linarith

/-! ## Fitting -/

theorem fits_of_coefficients (ha : a.coefficient < 10 ^ precision)
    (hs : s.coefficient ≤ 10 ^ precision) : Fits a s := by
  rcases le_total a.exponent s.exponent with hle | hle
  · exact .inl (by simpa [align, min_eq_left hle] using ha)
  · exact .inr (by simpa [align, min_eq_right hle] using hs)

theorem fits_of_whole {n : Nat} (hs : s.coefficient ≤ 10 ^ precision)
    (hsmall : s.value ≤ 10 ^ precision) : Fits ⟨n, 0⟩ s := by
  refine .inr ?_
  rcases le_total s.exponent 0 with hle | hle
  · simpa [align, min_eq_right hle] using hs
  · have hright := align_right ⟨n, 0⟩ s
    have hexponent : (align ⟨n, 0⟩ s).exponent = 0 := min_eq_left hle
    rw [hexponent, zpow_zero, mul_one] at hright
    rw [← hright] at hsmall
    exact_mod_cast hsmall

end Decimal

namespace Number

/-! ## Numbers as they are shown -/

/-- The decimal that the text of the number shows. -/
def shown : Number → ℚ
  | .int n => n
  | .float x => (if x.negative then -1 else 1) * (float x).shownMagnitude.value

/-- Among the integers only those that can be written by 28 digits and zeros behind them. -/
def HasFewDigits : Number → Prop
  | .int n => ∃ c k, c < 10 ^ Decimal.precision ∧ n.natAbs = c * 10 ^ k
  | .float _ => True

/-- A multiple of the step is within a billionth of the step. -/
def IsNearMultiple (value step : Number) : Prop :=
  ∃ k : ℤ, |value.shown - k * step.shown| ≤ step.shown / 10 ^ 9

/-- The quotient in binary64, where the format has both numbers and reaches that far. -/
def quotient? (value divisor : Number) : Option Binary64 :=
  value.toBinary64?.bind fun x => divisor.toBinary64?.bind x.div?

variable {value step : Number}

theorem abs_shown (n : Number) : |n.shown| = n.shownMagnitude.value := by
  cases n with
  | int n => rw [shown, shownMagnitude_int, Nat.cast_natAbs, Int.cast_abs]
  | float x =>
    rw [shown, abs_mul, abs_of_nonneg (Decimal.value_nonneg _)]
    split <;> simp

theorem shownMagnitude_coefficient_lt (x : Binary64) :
    (float x).shownMagnitude.coefficient < 10 ^ Decimal.precision := by
  rw [shownMagnitude]
  split
  case isTrue => decide
  case isFalse hnonzero =>
    have hx : 0 < x.significand :=
      Nat.pos_of_ne_zero fun hzero => hnonzero (beq_iff_eq.mpr hzero)
    exact (Binary64.shortestDecimal_digits_le hx).trans_lt (by decide)

theorem HasFewDigits.exists_decimal (h : value.HasFewDigits) :
    ∃ d : Decimal, d.value = |value.shown| ∧ d.coefficient < 10 ^ Decimal.precision := by
  cases value with
  | int n =>
    obtain ⟨c, k, hc, hn⟩ := h
    refine ⟨⟨c, k⟩, ?_, hc⟩
    rw [abs_shown, shownMagnitude_int, hn, Decimal.value, zpow_natCast]
    push_cast
    rfl
  | float x => exact ⟨_, (abs_shown _).symm, shownMagnitude_coefficient_lt x⟩

theorem shown_pos (h : 0 < step.value) : 0 < step.shown := by
  cases step with
  | int d => exact h
  | float x =>
    have hsign : x.negative = false := by
      by_contra hnegative
      rw [Bool.not_eq_false] at hnegative
      have hle : x.value ≤ 0 := by
        simp only [Binary64.value, hnegative, if_true, neg_mul, one_mul]
        exact div_nonpos_of_nonpos_of_nonneg (by simp) unit_pos.le
      exact absurd h (not_lt.mpr hle)
    have hcoefficient := shownMagnitude_coefficient_ne_zero (significand_ne_zero_of_pos h)
    rw [shown, hsign, Decimal.value]
    have hpos : (0 : ℚ) < (float x).shownMagnitude.coefficient := by
      exact_mod_cast Nat.pos_of_ne_zero hcoefficient
    simpa using mul_pos hpos (Decimal.ten_zpow_pos (float x).shownMagnitude.exponent)

theorem isMultipleOf_decimal (hmixed : ∀ n d, value = .int n → step ≠ .int d) :
    value.isMultipleOf step = (value.shownMagnitude.nearMultiple? step.shownMagnitude.round).getD
      (quotientIsNearInteger value step) := by
  cases value with
  | float x => exact isMultipleOf_float x step
  | int n =>
    cases step with
    | float s => exact isMultipleOf_float_step _ s
    | int d => exact absurd rfl (hmixed n d rfl)

theorem HasFewDigits.round_value (hstep : 0 < step.value) (h : step.HasFewDigits) :
    step.shownMagnitude.round.value = step.shown := by
  obtain ⟨d, hd, hshort⟩ := h.exists_decimal
  have hshown : step.shownMagnitude.value = d.value := by rw [hd, abs_shown]
  rw [Decimal.round_congr hshown, show d = ⟨d.coefficient, d.exponent⟩ from rfl,
    Decimal.round_short _ hshort, hd, abs_of_pos (shown_pos hstep)]

/-- Multiples lie on both sides of zero, so the sign of the number does not matter. -/
theorem isNearMultiple_iff (value step : Number) : value.IsNearMultiple step ↔
    ∃ k : ℤ, |value.shownMagnitude.value - k * step.shown| ≤ step.shown / 10 ^ 9 := by
  rw [IsNearMultiple, ← abs_shown]
  rcases abs_choice value.shown with heq | heq
  · rw [heq]
  · rw [heq]
    have hneg : ∀ k : ℤ, |-value.shown - ((-k : ℤ) : ℚ) * step.shown| =
        |value.shown - k * step.shown| := by
      intro k
      rw [← abs_neg]
      push_cast
      ring_nf
    constructor
    · rintro ⟨k, hk⟩
      exact ⟨-k, by rwa [hneg]⟩
    · rintro ⟨k, hk⟩
      refine ⟨-k, ?_⟩
      rwa [← hneg, neg_neg]

/-- Where neither the step nor the remainder is cut, the tolerance is met exactly. -/
theorem isMultipleOf_iff_near (hstep : 0 < step.value)
    (hmixed : ∀ n d, value = .int n → step ≠ .int d) (hfew : step.HasFewDigits)
    (hvalue : value.HasFewDigits ∨ step.shown ≤ 10 ^ Decimal.precision)
    (hquotient : |value.shown| < 10 ^ Decimal.precision * step.shown) :
    value.isMultipleOf step = true ↔ value.IsNearMultiple step := by
  have hround := hfew.round_value hstep
  have hcoefficient := Decimal.round_coefficient_le step.shownMagnitude
  have hpos := shown_pos hstep
  -- The text of a number may be longer than a decimal of the same value.
  obtain ⟨a, ha, hfits⟩ : ∃ a : Decimal, a.value = |value.shown| ∧
      a.Fits step.shownMagnitude.round := by
    rcases hvalue with hvalue | hsmall
    · obtain ⟨a, ha, hshort⟩ := hvalue.exists_decimal
      exact ⟨a, ha, Decimal.fits_of_coefficients hshort hcoefficient⟩
    · refine ⟨value.shownMagnitude, (abs_shown value).symm, ?_⟩
      cases value with
      | int n => exact Decimal.fits_of_whole hcoefficient (by rwa [hround])
      | float x => exact Decimal.fits_of_coefficients (shownMagnitude_coefficient_lt x) hcoefficient
  rw [← hround] at hpos hquotient
  rw [← ha] at hquotient
  obtain ⟨near, hnear, hiff⟩ := Decimal.nearMultiple?_eq hfits hcoefficient hpos hquotient
  rw [isMultipleOf_decimal hmixed, Decimal.nearMultiple?_congr ((abs_shown value).symm.trans ha.symm),
    hnear, Option.getD_some, hiff, Decimal.rest_near_iff hpos, isNearMultiple_iff, hround, ha,
    abs_shown]

theorem isMultipleOf_of_quotient (hstep : 0 < step.value)
    (hmixed : ∀ n d, value = .int n → step ≠ .int d) (hfew : step.HasFewDigits)
    (hlarge : 10 ^ Decimal.precision * step.shown ≤ |value.shown|)
    (hquotient : value.quotient? step = none) : value.isMultipleOf step = false := by
  have hround := hfew.round_value hstep
  have hnone : value.shownMagnitude.remainder? step.shownMagnitude.round = none := by
    refine if_pos ?_
    rw [Decimal.quotient_eq, hround, ← abs_shown, Nat.le_floor_iff (div_nonneg (abs_nonneg _) (shown_pos hstep).le),
      le_div_iff₀ (shown_pos hstep)]
    exact_mod_cast hlarge
  rw [isMultipleOf_decimal hmixed, Decimal.nearMultiple?, hnone, Option.map_none, Option.getD_none,
    quotientIsNearInteger_eq, ← quotient?, hquotient]
  rfl

/--
Two integers are divided exactly. Otherwise the decimals of the two numbers count, which have to
have a text, up to a billionth of the step, where the step and the whole part of the quotient have
at most 28 digits, and so has the number or the step is not large. A quotient beyond that and beyond
the format is refused.
-/
theorem isMultipleOf_within_tolerance (hstep : 0 < step.value) :
    (∀ n d, value = .int n → step = .int d → value.isMultipleOf? step = some (decide (d ∣ n))) ∧
      ((∀ n d, value = .int n → step ≠ .int d) → value.hasText = true → step.hasText = true →
        step.HasFewDigits →
        (value.HasFewDigits ∨ step.shown ≤ 10 ^ 28 → |value.shown| < 10 ^ 28 * step.shown →
          ∃ answer, value.isMultipleOf? step = some answer ∧
            (answer = true ↔ value.IsNearMultiple step)) ∧
        (10 ^ 28 * step.shown ≤ |value.shown| → value.quotient? step = none →
          value.isMultipleOf? step = some false)) := by
  constructor
  · rintro n d rfl rfl
    rw [isMultipleOf?_int, Option.some.injEq, Bool.eq_iff_iff, decide_eq_true_eq, isMultipleOf_int,
      beq_iff_eq, ← Nat.dvd_iff_mod_eq_zero, Int.natAbs_dvd_natAbs]
  · intro hmixed htext hsteptext hfew
    rw [isMultipleOf?_of_hasText htext hsteptext]
    refine ⟨fun hvalue hquotient => ⟨_, rfl, ?_⟩, fun hlarge hquotient => ?_⟩
    · exact isMultipleOf_iff_near hstep hmixed hfew hvalue hquotient
    · rw [isMultipleOf_of_quotient hstep hmixed hfew hlarge hquotient]

/-- About `1e308`. -/
def huge : Binary64 := ⟨false, 5010420900022432, 2045, by decide, by decide, by decide⟩

/-- About `1e-308`. -/
def tiny : Binary64 := ⟨false, 2024022533073106, 0, by decide, .inr rfl, Binary64.zero.scale_le⟩

theorem shown_huge : (float huge).shown = 10 ^ 308 := by
  have hdecimal : (float huge).shownMagnitude = ⟨1, 308⟩ := by decide +kernel
  rw [shown, hdecimal, Decimal.value]
  simp [huge]

theorem shown_tiny : (float tiny).shown = (10 ^ 308)⁻¹ := by
  have hdecimal : (float tiny).shownMagnitude = ⟨1, -308⟩ := by decide +kernel
  rw [shown, hdecimal, Decimal.value]
  simp [tiny]

theorem tiny_pos : 0 < (float tiny).value := by
  simp only [value, Binary64.value, tiny, Bool.false_eq_true, if_false]
  exact div_pos (by norm_num) unit_pos

/-- A whole number of steps, but too many for a quotient. -/
theorem huge_refused : 0 < (float tiny).value ∧ (float huge).IsNearMultiple (float tiny) ∧
    (float huge).isMultipleOf? (float tiny) = some false := by
  refine ⟨tiny_pos, ⟨10 ^ 308 * 10 ^ 308, ?_⟩, by decide +kernel⟩
  have hexact : (float huge).shown - ((10 ^ 308 * 10 ^ 308 : ℤ) : ℚ) * (float tiny).shown = 0 := by
    rw [shown_huge, shown_tiny, Int.cast_mul, Int.cast_pow, Int.cast_ofNat, mul_assoc,
      mul_inv_cancel₀ (by positivity), mul_one, sub_self]
  rw [hexact, abs_zero]
  exact div_nonneg (shown_pos tiny_pos).le (by norm_num)

/-- `0.3` -/
def threeTenths : Binary64 := ⟨false, 5404319552844595, 1020, by decide, by decide, by decide⟩

/-- `0.1` -/
def tenth : Binary64 := ⟨false, 7205759403792794, 1018, by decide, by decide, by decide⟩

/-- As binary64 numbers three tenths are no multiple of a tenth, and as decimals they are one. -/
theorem tenths_divide : (float threeTenths).isMultipleOf? (float tenth) = some true ∧
    (float huge).isMultipleOf? (float tiny) = some false := by
  have htenth : (float tenth).shown = 1 / 10 := by
    rw [shown, show (float tenth).shownMagnitude = ⟨1, -1⟩ by decide +kernel, Decimal.value]
    norm_num [tenth]
  have hthree : (float threeTenths).shown = 3 / 10 := by
    rw [shown, show (float threeTenths).shownMagnitude = ⟨3, -1⟩ by decide +kernel, Decimal.value]
    norm_num [threeTenths]
  have hpos : 0 < (float tenth).value := by
    simp only [value, Binary64.value, tenth, Bool.false_eq_true, if_false]
    exact div_pos (by norm_num) unit_pos
  have hnear : (float threeTenths).IsNearMultiple (float tenth) := by
    refine ⟨3, ?_⟩
    rw [hthree, htenth]
    norm_num
  have hlarge : 10 ^ 28 * (float tiny).shown ≤ |(float huge).shown| := by
    rw [shown_huge, shown_tiny, abs_of_pos (by positivity)]
    calc (10 : ℚ) ^ 28 * (10 ^ 308)⁻¹ ≤ 10 ^ 308 * 1 := by
          refine mul_le_mul (pow_le_pow_right₀ (by norm_num) (by norm_num)) ?_ (by positivity)
            (by positivity)
          exact inv_le_one_of_one_le₀ (one_le_pow₀ (by norm_num))
      _ = 10 ^ 308 := mul_one _
  have hfew : ∀ x, (float x).HasFewDigits := fun _ => trivial
  have hfloat : ∀ x y (n d : ℤ), float x = .int n → float y ≠ .int d := by
    intro x y n d hint
    cases hint
  have hquotient : |(float threeTenths).shown| < 10 ^ 28 * (float tenth).shown := by
    rw [hthree, htenth]
    norm_num
  obtain ⟨answer, hanswer, hiff⟩ :=
    ((isMultipleOf_within_tolerance hpos).2 (hfloat _ _) rfl rfl (hfew _)).1 (.inl (hfew _)) hquotient
  refine ⟨by rw [hanswer, hiff.mpr hnear], ?_⟩
  exact ((isMultipleOf_within_tolerance tiny_pos).2 (hfloat _ _) rfl rfl (hfew _)).2 hlarge
    (by decide +kernel)

end Number

end JsonSchema

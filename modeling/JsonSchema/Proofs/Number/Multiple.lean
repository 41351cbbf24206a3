import JsonSchema.Number.Multiple
import JsonSchema.Proofs.Number.Shortest

/-!
# Multiples and the way numbers are written

An integer and a binary64 number of one value are multiples of the same steps, unless the number
has more digits than the format or the step is so large that its tolerance holds a whole number.
-/

namespace JsonSchema

/-! ## Equal numbers -/

namespace Binary64

variable {x y : Binary64}

theorem scale_le_of_magnitude (h : x.magnitude = y.magnitude) : x.scale ≤ y.scale := by
  refine Nat.le_of_not_lt fun hlt => ?_
  have hnormal : 2 ^ 52 ≤ x.significand := by
    rcases x.normal with hnormal | hzero
    · exact hnormal
    · omega
  have hwide : 2 * 2 ^ y.scale ≤ 2 ^ x.scale := by
    rw [← pow_succ']
    exact Nat.pow_le_pow_right Nat.two_pos hlt
  have hlow : 2 ^ 52 * (2 * 2 ^ y.scale) ≤ x.magnitude := Nat.mul_le_mul hnormal hwide
  have hhigh : y.magnitude < 2 ^ 53 * 2 ^ y.scale :=
    Nat.mul_lt_mul_of_pos_right y.significand_lt_pow (Nat.pow_pos Nat.two_pos)
  omega

theorem fields_of_magnitude (h : x.magnitude = y.magnitude) :
    x.significand = y.significand ∧ x.scale = y.scale := by
  have hscale := Nat.le_antisymm (scale_le_of_magnitude h) (scale_le_of_magnitude h.symm)
  refine ⟨?_, hscale⟩
  rw [magnitude, magnitude, hscale] at h
  exact Nat.eq_of_mul_eq_mul_right (Nat.pow_pos Nat.two_pos) h

theorem log2_magnitude (x : Binary64) : Nat.log2 x.magnitude - 52 = x.scale := by
  have hpos : 0 < 2 ^ x.scale := Nat.pow_pos Nat.two_pos
  have hhigh : x.magnitude < 2 ^ (53 + x.scale) := by
    rw [pow_add]
    exact Nat.mul_lt_mul_of_pos_right x.significand_lt_pow hpos
  rcases x.normal with hnormal | hzero
  · have hlow : 2 ^ (52 + x.scale) ≤ x.magnitude := by
      rw [pow_add]
      exact Nat.mul_le_mul_right _ hnormal
    have hne : x.magnitude ≠ 0 := by
      have : 0 < 2 ^ (52 + x.scale) := Nat.pow_pos Nat.two_pos
      omega
    have hge := (Nat.le_log2 hne).mpr hlow
    have hlt := (Nat.log2_lt hne).mpr hhigh
    omega
  · rcases Nat.eq_zero_or_pos x.magnitude with hmagnitude | hmagnitude
    · rw [hmagnitude, hzero]
      rfl
    · have hlt := (Nat.log2_lt hmagnitude.ne').mpr hhigh
      omega

theorem ofFields?_fields (x : Binary64) (negative : Bool) :
    ofFields? negative x.significand x.scale = some { x with negative } :=
  dif_pos ⟨x.significand_lt, x.normal, x.scale_le⟩

theorem ofRatio?_exact (num : Nat) {den : Nat} (hden : 0 < den) (negative : Bool)
    (h : num * 2 ^ unitBits = x.magnitude * den) :
    ofRatio? negative num den = some { x with negative } := by
  have hpos : 0 < 2 ^ x.scale := Nat.pow_pos Nat.two_pos
  have hscale : Nat.log2 (num * Nat.pow 2 unitBits / den) - (significandBits - 1) = x.scale := by
    rw [Nat.pow_eq, h, Nat.mul_div_cancel _ hden]
    exact x.log2_magnitude
  have hsignificand : roundHalfEven (num * Nat.pow 2 unitBits) (den * Nat.pow 2 x.scale) =
      x.significand := by
    rw [Nat.pow_eq, Nat.pow_eq, h, magnitude, Nat.pow_eq, Nat.mul_assoc, Nat.mul_comm _ den]
    exact roundHalfEven_exact _ (Nat.mul_pos hden hpos)
  simp only [ofRatio?]
  rw [hscale, hsignificand, if_neg (Nat.ne_of_lt x.significand_lt), ofFields?_fields]

theorem ofFields?_magnitude (negative negative' : Bool) (significand scale : Nat) :
    (ofFields? negative significand scale).map magnitude =
      (ofFields? negative' significand scale).map magnitude := by
  simp only [ofFields?]
  split <;> rfl

theorem div?_magnitude (h : x.magnitude = y.magnitude) (z : Binary64) :
    (x.div? z).map magnitude = (y.div? z).map magnitude := by
  simp only [div?, ofRatio?, h]
  split <;> exact ofFields?_magnitude ..

theorem isNearInteger_congr (h : x.magnitude = y.magnitude) :
    x.isNearInteger = y.isNearInteger := by
  rw [isNearInteger, isNearInteger, h]

end Binary64

namespace Number

theorem same_iff (a b : Number) : a.same b = true ↔ a.scaled = b.scaled := by
  simp [same]

theorem same_symm {a b : Number} (h : a.same b = true) : b.same a = true :=
  (same_iff b a).mpr ((same_iff a b).mp h).symm

theorem same_trans {a b c : Number} (h : a.same b = true) (h' : b.same c = true) :
    a.same c = true :=
  (same_iff a c).mpr (((same_iff a b).mp h).trans ((same_iff b c).mp h'))

theorem value_of_same {a b : Number} (h : a.same b = true) : a.value = b.value := by
  have hscaled : (a.scaled : ℚ) = b.scaled := congrArg _ ((same_iff a b).mp h)
  rw [a.scaled_eq, b.scaled_eq] at hscaled
  exact mul_right_cancel₀ unit_pos.ne' hscaled

theorem same_int_iff (n m : ℤ) : (int n).same (int m) = true ↔ n = m := by
  have hpow : ∀ k, ((Nat.pow 2 k : ℕ) : ℤ) ≠ 0 := fun k =>
    Int.natCast_ne_zero.mpr (Nat.pow_pos Nat.two_pos).ne'
  rw [same_iff, scaled, scaled, mul_left_inj' (hpow unitBits)]

theorem magnitude_of_same_float {x y : Binary64} (h : (float x).same (float y) = true) :
    x.magnitude = y.magnitude := by
  rw [← x.natAbs_scaled, ← y.natAbs_scaled]
  exact congrArg Int.natAbs ((same_iff _ _).mp h)

theorem magnitude_of_same_int {n : ℤ} {x : Binary64} (h : (int n).same (float x) = true) :
    x.magnitude = n.natAbs * 2 ^ unitBits := by
  rw [← x.natAbs_scaled, ← show (int n).scaled = x.scaled from (same_iff _ _).mp h]
  rw [scaled, Int.natAbs_mul, Int.natAbs_natCast, Nat.pow_eq]

theorem toBinary64?_congr {a b : Number} (h : a.same b = true) :
    a.toBinary64?.map (·.magnitude) = b.toBinary64?.map (·.magnitude) := by
  have hmixed : ∀ {n : ℤ} {x : Binary64}, (int n).same (float x) = true →
      (int n).toBinary64?.map (·.magnitude) = some x.magnitude := by
    intro n x h
    have hratio := Binary64.ofRatio?_exact (x := x) n.natAbs Nat.one_pos (decide (n < 0))
      (by rw [magnitude_of_same_int h, Nat.mul_one])
    simp only [toBinary64?, Binary64.ofInt?, hratio]
    rfl
  cases a with
  | int n =>
    cases b with
    | int m => rw [(same_int_iff n m).mp h]
    | float y => exact hmixed h
  | float x =>
    cases b with
    | int m => exact (hmixed (same_symm h)).symm
    | float y => exact congrArg some (magnitude_of_same_float h)

/-- Stated for any functions, as the true ones compare with powers of two that must stay closed. -/
theorem near_quotient (near : Binary64 → Bool)
    (quotient : Binary64 → Binary64 → Option Binary64) (value divisor : Option Binary64) :
    (match value, divisor with
      | some x, some y =>
        match quotient x y with
        | some q => near q
        | none => false
      | _, _ => false) =
      ((value.bind fun x => divisor.bind (quotient x)).map near).getD false := by
  cases value with
  | none => rfl
  | some x =>
    cases divisor with
    | none => rfl
    | some y =>
      dsimp only [Option.bind_some]
      cases quotient x y <;> rfl

theorem quotientIsNearInteger_eq (value divisor : Number) :
    quotientIsNearInteger value divisor = ((value.toBinary64?.bind fun x =>
      divisor.toBinary64?.bind x.div?).map Binary64.isNearInteger).getD false :=
  near_quotient Binary64.isNearInteger Binary64.div? _ _

theorem quotientIsNearInteger_congr {a b : Number} (h : a.same b = true) (step : Number) :
    quotientIsNearInteger a step = quotientIsNearInteger b step := by
  have hmagnitude := toBinary64?_congr h
  rw [quotientIsNearInteger_eq, quotientIsNearInteger_eq]
  cases ha : a.toBinary64? with
  | none =>
    rw [ha] at hmagnitude
    rw [Option.map_eq_none_iff.mp hmagnitude.symm]
  | some x =>
    rw [ha, Option.map_some] at hmagnitude
    obtain ⟨y, hb, hxy⟩ := Option.map_eq_some_iff.mp hmagnitude.symm
    rw [hb, Option.bind_some, Option.bind_some]
    cases step.toBinary64? with
    | none => rw [Option.bind_none, Option.bind_none]
    | some z =>
      have hquotient := Binary64.div?_magnitude hxy z
      rw [Option.bind_some, Option.bind_some]
      cases hx : x.div? z with
      | none =>
        rw [hx] at hquotient
        rw [Option.map_eq_none_iff.mp hquotient]
      | some q =>
        rw [hx, Option.map_some] at hquotient
        obtain ⟨r, hy, hqr⟩ := Option.map_eq_some_iff.mp hquotient
        rw [hy, Option.map_some, Option.map_some, Binary64.isNearInteger_congr hqr]

/-! ## Decimals for numbers -/

theorem shownMagnitude_int (n : ℤ) : (int n).shownMagnitude.value = n.natAbs := by
  simp [shownMagnitude, Decimal.value]

theorem shownMagnitude_float {x y : Binary64} (h : x.magnitude = y.magnitude) :
    (float x).shownMagnitude = (float y).shownMagnitude := by
  obtain ⟨xNegative, significand, scale, hxLt, hxNormal, hxScale⟩ := x
  obtain ⟨yNegative, significand', scale', hyLt, hyNormal, hyScale⟩ := y
  obtain ⟨rfl, rfl⟩ := Binary64.fields_of_magnitude h
  rfl

theorem shownMagnitude_of_whole {n : ℤ} {x : Binary64} (h : (int n).same (float x) = true)
    (hlt : n.natAbs < 2 ^ 53) : (float x).shownMagnitude.value = n.natAbs := by
  have hmagnitude := magnitude_of_same_int h
  rw [shownMagnitude]
  split
  case isTrue hzero =>
    have hsignificand : x.significand = 0 := beq_iff_eq.mp hzero
    rw [Binary64.magnitude, hsignificand, Nat.zero_mul] at hmagnitude
    have hn : n.natAbs = 0 := (Nat.mul_eq_zero.mp hmagnitude.symm).resolve_right
      Binary64.two_pow_unitBits_pos.ne'
    simp [Decimal.value, hn]
  case isFalse hnonzero =>
    have hn : 0 < n.natAbs := by
      refine Nat.pos_of_ne_zero fun hn => hnonzero ?_
      rw [hn, Nat.zero_mul, Binary64.magnitude] at hmagnitude
      have hsignificand := (Nat.mul_eq_zero.mp hmagnitude).resolve_right
        (Nat.pow_pos Nat.two_pos).ne'
      exact beq_iff_eq.mpr hsignificand
    exact Binary64.shortestDecimal_of_whole hn hlt hmagnitude

end Number

/-! ## Remainders near zero -/

namespace Decimal

/-- Whether a remainder is within the tolerance of zero or of the step, where there is one. -/
def nearMultiple? (value step : Decimal) : Option Bool :=
  (value.remainder? step).map fun remainder =>
    remainder.le (step.mul tolerance) || (step.sub remainder).le (step.mul tolerance)

theorem nearMultiple?_congr {a b : Decimal} (h : a.value = b.value) (step : Decimal) :
    a.nearMultiple? step = b.nearMultiple? step := by
  have hremainder := remainder?_congr h step
  rw [nearMultiple?, nearMultiple?]
  generalize a.remainder? step = r at hremainder
  generalize b.remainder? step = r' at hremainder
  cases hremainder with
  | none => rfl
  | some hvalue =>
    rw [Option.map_some, Option.map_some, le_congr hvalue rfl,
      le_congr (sub_congr (rfl : step.value = step.value) hvalue) rfl]

theorem align_whole (a b : Nat) : align ⟨a, 0⟩ ⟨b, 0⟩ = ⟨a, b, 0⟩ := by
  simp [align]

/-- By a step below `10 ^ 9` the tolerance holds no whole number but zero. -/
theorem nearMultiple?_whole {n d : Nat} (hn : n < 10 ^ 28) (hd : 0 < d) (hsmall : d < 10 ^ 9) :
    nearMultiple? ⟨n, 0⟩ ⟨d, 0⟩ = some (n % d == 0) := by
  have hmod := Nat.mod_lt n hd
  have hquotient : n / d < 10 ^ 28 := Nat.lt_of_le_of_lt (Nat.div_le_self n d) hn
  have hremainder : remainder? ⟨n, 0⟩ ⟨d, 0⟩ = some ⟨n % d, 0⟩ := by
    rw [remainder?, align_whole]
    dsimp only
    rw [if_neg (by simpa [precision] using hquotient), round_short _ (by rw [precision]; omega)]
  have hslack : mul ⟨d, 0⟩ tolerance = ⟨d, -9⟩ := by
    rw [mul, tolerance, Nat.mul_one]
    exact round_short (c := d) _ (by rw [precision]; omega)
  have hsub : sub ⟨d, 0⟩ ⟨n % d, 0⟩ = ⟨d - n % d, 0⟩ := by
    rw [sub, align_whole]
    exact round_short (c := d - n % d) _ (by rw [precision]; omega)
  have hle : ∀ m : Nat, le ⟨m, 0⟩ ⟨d, -9⟩ = decide (m * 10 ^ 9 ≤ d) := by
    intro m
    simp [le, align]
  rw [nearMultiple?, hremainder, Option.map_some, hslack, hsub, hle, hle]
  congr 1
  rw [Bool.eq_iff_iff, Bool.or_eq_true, decide_eq_true_eq, decide_eq_true_eq, beq_iff_eq]
  omega

end Decimal

/-! ## Multiples -/

namespace Number

theorem near_remainder (near : Decimal → Bool) (otherwise : Bool) (remainder : Option Decimal) :
    (match remainder with
      | some r => near r
      | none => otherwise) = (remainder.map near).getD otherwise := by
  cases remainder <;> rfl

theorem isMultipleOf_float (x : Binary64) (step : Number) :
    (float x).isMultipleOf step =
      ((float x).shownMagnitude.nearMultiple? step.shownMagnitude.round).getD
        (quotientIsNearInteger (float x) step) := by
  simp only [isMultipleOf, Decimal.nearMultiple?]
  exact near_remainder _ _ _

theorem isMultipleOf_float_step (a : Number) (s : Binary64) :
    a.isMultipleOf (float s) =
      (a.shownMagnitude.nearMultiple? (float s).shownMagnitude.round).getD
        (quotientIsNearInteger a (float s)) := by
  cases a with
  | int n =>
    simp only [isMultipleOf, Decimal.nearMultiple?]
    exact near_remainder _ _ _
  | float x => exact isMultipleOf_float x _

theorem isMultipleOf_int (n d : ℤ) :
    (int n).isMultipleOf (int d) = (n.natAbs % d.natAbs == 0) := by
  rw [isMultipleOf, Bool.eq_iff_iff, beq_iff_eq, beq_iff_eq, ← Int.dvd_iff_emod_eq_zero,
    ← Nat.dvd_iff_mod_eq_zero, Int.natAbs_dvd_natAbs]

theorem isMultipleOf?_int (n d : ℤ) :
    (int n).isMultipleOf? (int d) = some ((int n).isMultipleOf (int d)) := rfl

theorem isMultipleOf?_of_hasText {value step : Number} (hvalue : value.hasText = true)
    (hstep : step.hasText = true) : value.isMultipleOf? step = some (value.isMultipleOf step) := by
  unfold isMultipleOf?
  split
  · rfl
  · rw [hvalue, hstep]
    rfl

theorem hasText_of_isMultipleOf? {value step : Number} (h : value.isMultipleOf? step = none) :
    value.hasText = false ∨ step.hasText = false := by
  cases hvalue : value.hasText with
  | false => exact .inl rfl
  | true =>
    cases hstep : step.hasText with
    | false => exact .inr rfl
    | true => exact nomatch h.symm.trans (isMultipleOf?_of_hasText hvalue hstep)

/-- Where the format and the tolerance suffice, the way of writing a number does not matter. -/
theorem isMultipleOf_of_whole {n : ℤ} {x : Binary64} {step : Number}
    (h : (int n).same (float x) = true) (hlt : n.natAbs < 2 ^ 53) (hpositive : step.le (int 0) = false)
    (hsmall : ∀ d, step = int d → d < 10 ^ 9) :
    (int n).isMultipleOf step = (float x).isMultipleOf step := by
  have hvalue : (int n).shownMagnitude.value = (float x).shownMagnitude.value := by
    rw [shownMagnitude_int, shownMagnitude_of_whole h hlt]
  cases step with
  | float s =>
    rw [isMultipleOf_float_step, isMultipleOf_float_step, Decimal.nearMultiple?_congr hvalue,
      quotientIsNearInteger_congr h]
  | int d =>
    have hd : 0 < d := by
      have hle := (le_iff (int d) (int 0)).not.mp (by rw [hpositive]; decide)
      simpa [value] using hle
    have hsmall := hsmall d rfl
    rw [isMultipleOf_int, isMultipleOf_float, ← Decimal.nearMultiple?_congr hvalue]
    simp only [shownMagnitude]
    rw [Decimal.round_short _ (by rw [Decimal.precision]; omega),
      Decimal.nearMultiple?_whole (by omega) (by omega) (by omega), Option.getD_some]

/--
The step tells an integer from the binary64 number of the same value. The integer has too many
digits for the format, or the step is so large that its tolerance holds a whole number.
-/
structure TellsApart (step a b : Number) : Prop where
  same : a.same b = true
  differ : a.isMultipleOf step ≠ b.isMultipleOf step
  spelled : ∃ n x, a = int n ∧ b = float x ∨ a = float x ∧ b = int n
  large : ∃ n : ℤ, (a = int n ∨ b = int n) ∧ (2 ^ 53 ≤ n.natAbs ∨ ∃ d, step = int d ∧ 10 ^ 9 ≤ d)

theorem isMultipleOf_congr {step a b : Number} (h : a.same b = true)
    (hpositive : step.le (int 0) = false) :
    a.isMultipleOf step = b.isMultipleOf step ∨ step.TellsApart a b := by
  have hlarge : ∀ {n : ℤ} {x : Binary64}, (int n).same (float x) = true →
      (int n).isMultipleOf step ≠ (float x).isMultipleOf step →
      2 ^ 53 ≤ n.natAbs ∨ ∃ d, step = int d ∧ 10 ^ 9 ≤ d := by
    intro n x hsame hdiffer
    by_contra hnone
    simp only [not_or, not_exists, not_and, not_le] at hnone
    exact hdiffer (isMultipleOf_of_whole hsame hnone.1 hpositive hnone.2)
  rcases eq_or_ne (a.isMultipleOf step) (b.isMultipleOf step) with heq | hdiffer
  · exact .inl heq
  refine .inr ?_
  cases a with
  | int n =>
    cases b with
    | int m => exact absurd (by rw [(same_int_iff n m).mp h]) hdiffer
    | float y => exact ⟨h, hdiffer, ⟨n, y, .inl ⟨rfl, rfl⟩⟩, n, .inl rfl, hlarge h hdiffer⟩
  | float x =>
    cases b with
    | int m =>
      exact ⟨h, hdiffer, ⟨m, x, .inr ⟨rfl, rfl⟩⟩, m, .inr rfl, hlarge (same_symm h) hdiffer.symm⟩
    | float y =>
      have hmagnitude := magnitude_of_same_float h
      refine absurd ?_ hdiffer
      rw [isMultipleOf_float, isMultipleOf_float, shownMagnitude_float hmagnitude,
        quotientIsNearInteger_congr h]

/-! ## Divisors -/

/-- Whether each form in which a step divides is other than zero. -/
def isDivisor (step : Number) : Bool :=
  (match step with
    | .int d => d != 0
    | .float _ => true) &&
  step.shownMagnitude.round.coefficient != 0 && step.toBinary64?.all fun y => y.magnitude != 0

end Number

theorem Binary64.ofFields?_eq_some {negative : Bool} {significand scale : Nat} {x : Binary64}
    (h : ofFields? negative significand scale = some x) :
    x.significand = significand ∧ x.scale = scale := by
  unfold ofFields? at h
  split at h
  · rw [← Option.some.inj h]
    exact ⟨rfl, rfl⟩
  · cases h

theorem Binary64.ofInt?_significand_ne_zero {n : ℤ} {x : Binary64} (hn : n ≠ 0)
    (h : ofInt? n = some x) : x.significand ≠ 0 := by
  have hunits : 0 < n.natAbs * 2 ^ unitBits :=
    Nat.mul_pos (Int.natAbs_pos.mpr hn) two_pow_unitBits_pos
  simp only [ofInt?, ofRatio?, Nat.pow_eq, Nat.div_one, Nat.one_mul] at h
  split at h
  case isTrue =>
    rw [(ofFields?_eq_some h).1]
    exact (Nat.pow_pos Nat.two_pos).ne'
  case isFalse =>
    rw [(ofFields?_eq_some h).1]
    generalize n.natAbs * 2 ^ unitBits = units at hunits
    have hscale : 2 ^ (Nat.log2 units - (significandBits - 1)) ≤ units :=
      Nat.le_trans (Nat.pow_le_pow_right Nat.two_pos (Nat.sub_le _ _))
        (Nat.log2_self_le hunits.ne')
    have hquotient := Nat.div_pos hscale (Nat.pow_pos Nat.two_pos)
    have hround := le_roundHalfEven units (2 ^ (Nat.log2 units - (significandBits - 1)))
    omega

namespace Number

theorem significand_ne_zero_of_pos {x : Binary64} (h : 0 < (float x).value) : x.significand ≠ 0 := by
  intro hzero
  simp [value, Binary64.value, hzero] at h

theorem shownMagnitude_coefficient_ne_zero {x : Binary64} (hx : x.significand ≠ 0) :
    (float x).shownMagnitude.coefficient ≠ 0 := by
  rw [shownMagnitude, if_neg (by simpa [Binary64.isZero] using hx)]
  exact Binary64.shortestDecimal_digits_ne_zero hx

theorem isDivisor_of_pos {step : Number} (h : 0 < step.value) : step.isDivisor = true := by
  have hpow : ∀ k, Nat.pow 2 k ≠ 0 := fun k => (Nat.pow_pos Nat.two_pos).ne'
  cases step with
  | int d =>
    have hd : d ≠ 0 := by
      rintro rfl
      simp [value] at h
    have hround := Decimal.round_coefficient_ne_zero (d := (int d).shownMagnitude)
      (Int.natAbs_ne_zero.mpr hd)
    rw [isDivisor, Bool.and_eq_true, Bool.and_eq_true]
    refine ⟨⟨bne_iff_ne.mpr hd, bne_iff_ne.mpr hround⟩, ?_⟩
    rw [Option.all_eq_true]
    intro y hy
    have hsignificand := Binary64.ofInt?_significand_ne_zero hd hy
    exact bne_iff_ne.mpr (Nat.mul_ne_zero hsignificand (hpow _))
  | float x =>
    have hsignificand := significand_ne_zero_of_pos h
    have hshown := shownMagnitude_coefficient_ne_zero hsignificand
    rw [isDivisor, Bool.and_eq_true, Bool.and_eq_true]
    refine ⟨⟨rfl, bne_iff_ne.mpr (Decimal.round_coefficient_ne_zero hshown)⟩, ?_⟩
    rw [toBinary64?, Option.all_some]
    exact bne_iff_ne.mpr (Nat.mul_ne_zero hsignificand (hpow _))

end Number

end JsonSchema

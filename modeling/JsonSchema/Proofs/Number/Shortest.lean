import JsonSchema.Proofs.Number.Decimal
import JsonSchema.Proofs.Number.Value

/-!
# The shortest decimal of a number

A number that is not zero has a shortest decimal, and this decimal is not zero. A whole number
below `2 ^ 53` is its own shortest decimal.
-/

namespace JsonSchema

/-! ## Grids

The decimals with exponent `e` are the multiples of `gridNum e / gridDen e`, in the units in which
a rounding interval is given.
-/

def gridNum (e : ℤ) : Nat := 4 * Nat.pow 2 unitBits * Nat.pow 10 e.toNat

def gridDen (e : ℤ) : Nat := Nat.pow 10 (-e).toNat

theorem gridNum_pos (e : ℤ) : 0 < gridNum e := by
  simp only [gridNum, Nat.pow_eq]
  positivity

theorem gridDen_pos (e : ℤ) : 0 < gridDen e := by
  simp only [gridDen, Nat.pow_eq]
  positivity

theorem gridNum_eq (e : ℤ) : (gridNum e : ℚ) = 4 * 2 ^ unitBits * 10 ^ e * gridDen e := by
  have hpow : ((10 ^ e.toNat : ℕ) : ℚ) = 10 ^ e * (10 ^ (-e).toNat : ℕ) := by
    push_cast
    rw [← zpow_natCast, ← zpow_natCast, ← zpow_add₀ (by norm_num)]
    congr 1
    omega
  simp only [gridNum, gridDen, Nat.pow_eq]
  rw [Nat.cast_mul, hpow]
  push_cast
  ring

namespace RoundingInterval

variable {i : RoundingInterval} {point : ℤ} {count : Nat} {d : ShortDecimal}

theorem holds_of_lt {num den : Nat} (hlow : i.low * den < num) (hhigh : num < i.high * den) :
    i.holds num den = true := by
  unfold holds
  split <;> simp <;> omega

theorem holds_bounds {num den : Nat} (h : i.holds num den = true) :
    i.low * den ≤ num ∧ num ≤ i.high * den := by
  unfold holds at h
  split at h <;> simp only [decide_eq_true_eq] at h <;> omega

theorem atCount_eq (i : RoundingInterval) (point : ℤ) (count : Nat) :
    i.atCount point count =
      let e := point - count
      let lower := i.value * gridDen e / gridNum e
      let upper := lower + 1
      let belowBy := i.value * gridDen e - lower * gridNum e
      let aboveBy := upper * gridNum e - i.value * gridDen e
      if i.holds (lower * gridNum e) (gridDen e) && (!i.holds (upper * gridNum e) (gridDen e) ||
          decide (belowBy < aboveBy) || (decide (belowBy = aboveBy) && lower % 2 == 0)) then
        some ⟨lower, e⟩
      else if i.holds (upper * gridNum e) (gridDen e) then some ⟨upper, e⟩
      else none := rfl

theorem atCount_holds (h : i.atCount point count = some d) :
    d.exponent = point - count ∧
      i.holds (d.digits * gridNum d.exponent) (gridDen d.exponent) = true := by
  rw [atCount_eq] at h
  dsimp only at h
  split at h
  case isTrue hlower =>
    rw [Bool.and_eq_true] at hlower
    rw [← Option.some.inj h]
    exact ⟨rfl, hlower.1⟩
  case isFalse =>
    split at h
    case isTrue hupper =>
      rw [← Option.some.inj h]
      exact ⟨rfl, hupper⟩
    case isFalse => cases h

theorem atCount_isSome {e : ℤ} (he : point - count = e)
    (h : i.holds (i.value * gridDen e / gridNum e * gridNum e) (gridDen e) = true ∨
      i.holds ((i.value * gridDen e / gridNum e + 1) * gridNum e) (gridDen e) = true) :
    (i.atCount point count).isSome = true := by
  rw [atCount_eq, he]
  dsimp only
  split
  case isTrue => rfl
  case isFalse hlower =>
    split
    case isTrue => rfl
    case isFalse hupper =>
      rw [Bool.not_eq_true] at hupper
      rcases h with h | h
      · simp [h, hupper] at hlower
      · simp [h] at hupper

end RoundingInterval

/-! ## The interval of a number -/

namespace Binary64

variable {x : Binary64}

theorem interval_value (x : Binary64) : x.interval.value = 4 * (x.significand * 2 ^ x.scale) := rfl

theorem interval_high (x : Binary64) :
    x.interval.high = x.interval.value + 2 * 2 ^ x.scale := rfl

/-- Below a power of two the numbers are closer to each other. -/
theorem interval_low (x : Binary64) : ∃ below, x.interval.low = x.interval.value - below ∧
    (below = 2 ^ x.scale ∧ x.significand = 2 ^ 52 ∨ below = 2 * 2 ^ x.scale) := by
  refine ⟨_, rfl, ?_⟩
  simp only [Nat.pow_eq]
  split
  case isTrue h => exact .inl ⟨rfl, h.1⟩
  case isFalse => exact .inr rfl

theorem significand_lt_pow (x : Binary64) : x.significand < 2 ^ 53 := x.significand_lt

theorem interval_low_pos (hx : 0 < x.significand) : 0 < x.interval.low := by
  obtain ⟨below, hlow, hbelow⟩ := x.interval_low
  have hstep : 0 < 2 ^ x.scale := by positivity
  have hvalue : 2 ^ x.scale ≤ x.significand * 2 ^ x.scale := Nat.le_mul_of_pos_left _ hx
  rw [hlow, interval_value]
  rcases hbelow with ⟨rfl, -⟩ | rfl <;> omega

/-! ## There is a shortest decimal -/

theorem decimalPoint_le {value : Nat} (den : Nat) (hvalue : 0 < value) :
    (den : ℚ) * 10 ^ (decimalPoint value den - 1) ≤ value := by
  unfold decimalPoint
  split
  case isTrue hle =>
    rcases Nat.eq_zero_or_pos den with rfl | hden
    · simp
    have hlow := pow_le_of_decimalLength (Nat.div_pos hle hden)
    have hpos := decimalLength_pos (value / den)
    have hexponent : (decimalLength (value / den) : ℤ) - 1 = (decimalLength (value / den) - 1 : ℕ) := by
      omega
    rw [hexponent, zpow_natCast]
    have hnat : den * 10 ^ (decimalLength (value / den) - 1) ≤ value :=
      Nat.le_trans (Nat.mul_le_mul_left _ hlow) (Nat.mul_div_le _ _)
    exact_mod_cast hnat
  case isFalse hlt =>
    have hbound : den < value * 10 ^ decimalLength (den / value) := by
      have := lt_pow_decimalLength (den / value)
      rw [Nat.div_lt_iff_lt_mul hvalue] at this
      rwa [Nat.mul_comm]
    simp only [Nat.pow_eq]
    generalize decimalLength (den / value) = k at hbound
    have hten : (0 : ℚ) < 10 ^ k := by positivity
    split
    case isTrue hten_le =>
      have hq : (10 * den : ℚ) ≤ value * 10 ^ k := by exact_mod_cast hten_le
      have hpow : (10 : ℚ) ^ (2 - (k : ℤ) - 1) = 10 / 10 ^ k := by
        rw [show 2 - (k : ℤ) - 1 = 1 - k by ring, zpow_sub₀ (by norm_num), zpow_one, zpow_natCast]
      rw [hpow, mul_div_assoc', div_le_iff₀ hten]
      linarith
    case isFalse =>
      have hq : (den : ℚ) < value * 10 ^ k := by exact_mod_cast hbound
      have hpow : (10 : ℚ) ^ (1 - (k : ℤ) - 1) = 1 / 10 ^ k := by
        rw [show 1 - (k : ℤ) - 1 = -k by ring, zpow_neg, zpow_natCast, one_div]
      rw [hpow, mul_div_assoc', div_le_iff₀ hten]
      linarith

theorem lt_decimalPoint {value den : Nat} (hvalue : 0 < value) (hden : 0 < den) :
    (value : ℚ) < den * 10 ^ decimalPoint value den := by
  unfold decimalPoint
  split
  case isTrue =>
    have hhigh := lt_pow_decimalLength (value / den)
    rw [Nat.div_lt_iff_lt_mul hden, Nat.mul_comm] at hhigh
    rw [zpow_natCast]
    exact_mod_cast hhigh
  case isFalse hlt =>
    have hlow := pow_le_of_decimalLength (Nat.div_pos (Nat.le_of_not_le hlt) hvalue)
    have hpos := decimalLength_pos (den / value)
    simp only [Nat.pow_eq]
    generalize hk : decimalLength (den / value) = k at hlow hpos
    have hpow : (10 : ℚ) ^ (1 - (k : ℤ)) = 10 / 10 ^ k := by
      rw [zpow_sub₀ (by norm_num), zpow_one, zpow_natCast]
    have hten : (0 : ℚ) < 10 ^ k := by positivity
    split
    case isTrue =>
      -- `10 ^ (k - 1)` of the values are no more than `den`.
      have hbound : value * 10 ^ k ≤ 10 * den := by
        have hmul := (Nat.le_div_iff_mul_le hvalue).mp hlow
        obtain ⟨j, rfl⟩ : ∃ j, k = j + 1 := ⟨k - 1, by omega⟩
        rw [Nat.add_sub_cancel] at hmul
        rw [pow_succ]
        linarith
      have hq : (value * 10 ^ k : ℚ) ≤ 10 * den := by exact_mod_cast hbound
      have hdenPos : (0 : ℚ) < den := by exact_mod_cast hden
      rw [show 2 - (k : ℤ) = 1 + (1 - k) by ring, zpow_add₀ (by norm_num), zpow_one, hpow,
        mul_div_assoc', mul_div_assoc', lt_div_iff₀ hten]
      linarith
    case isFalse hshort =>
      have hq : (value * 10 ^ k : ℚ) < 10 * den := by exact_mod_cast Nat.lt_of_not_le hshort
      rw [hpow, mul_div_assoc', lt_div_iff₀ hten]
      linarith

def point (x : Binary64) : ℤ := decimalPoint x.interval.value (4 * Nat.pow 2 unitBits)

theorem atCount_maxDigits (hx : 0 < x.significand) :
    (x.interval.atCount x.point maxDigits).isSome = true := by
  refine RoundingInterval.atCount_isSome rfl ?_
  obtain ⟨below, hlow, hbelow⟩ := x.interval_low
  have hhigh := x.interval_high
  have hstep : 0 < 2 ^ x.scale := by positivity
  have hvalue : 0 < x.interval.value := by
    rw [interval_value]
    positivity
  -- The value has at least `10 ^ 16` steps of the grid.
  have hsteps : 10 ^ 16 * gridNum (x.point - maxDigits) ≤
      x.interval.value * gridDen (x.point - maxDigits) := by
    have hpoint := decimalPoint_le (4 * Nat.pow 2 unitBits) hvalue
    rw [← point] at hpoint
    have hden : (0 : ℚ) < gridDen (x.point - maxDigits) := by exact_mod_cast gridDen_pos _
    have hgrid : (10 ^ 16 * gridNum (x.point - maxDigits) : ℚ) =
        (4 * Nat.pow 2 unitBits : ℕ) * 10 ^ (x.point - 1) * gridDen (x.point - maxDigits) := by
      rw [gridNum_eq, show x.point - 1 = (x.point - maxDigits) + (16 : ℕ) by simp [maxDigits]; ring,
        zpow_add₀ (by norm_num), zpow_natCast, Nat.pow_eq]
      push_cast
      ring
    have := mul_le_mul_of_nonneg_right hpoint hden.le
    rw [← hgrid] at this
    exact_mod_cast this
  generalize hnum : gridNum (x.point - maxDigits) = num at hsteps ⊢
  generalize hden : gridDen (x.point - maxDigits) = den at hsteps ⊢
  have hnumPos : 0 < num := hnum ▸ gridNum_pos _
  have hdenPos : 0 < den := hden ▸ gridDen_pos _
  have hsplit := Nat.div_add_mod (x.interval.value * den) num
  have hmod := Nat.mod_lt (x.interval.value * den) hnumPos
  generalize x.interval.value * den / num = q at hsplit ⊢
  generalize x.interval.value * den % num = r at hsplit hmod
  have hsignificand := x.significand_lt_pow
  have hmagnitude : x.interval.value * den = 4 * (x.significand * (2 ^ x.scale * den)) := by
    rw [interval_value]
    ring
  have hstepDen : 0 < 2 ^ x.scale * den := Nat.mul_pos hstep hdenPos
  have hbelowLe : below ≤ x.interval.value := by
    rw [interval_value]
    have : 2 ^ x.scale ≤ x.significand * 2 ^ x.scale := Nat.le_mul_of_pos_left _ hx
    rcases hbelow with ⟨rfl, -⟩ | rfl <;> omega
  have hlowDen : x.interval.low * den + below * den = x.interval.value * den := by
    rw [hlow, ← Nat.add_mul, Nat.sub_add_cancel hbelowLe]
  have hhighDen : x.interval.high * den = x.interval.value * den + 2 * (2 ^ x.scale * den) := by
    rw [hhigh, Nat.add_mul, Nat.mul_assoc]
  have hproduct : x.significand * (2 ^ x.scale * den) < 2 ^ 53 * (2 ^ x.scale * den) :=
    Nat.mul_lt_mul_of_pos_right hsignificand hstepDen
  rw [Nat.mul_comm num q] at hsplit
  by_cases hnear : 2 * r ≤ num
  · refine .inl (RoundingInterval.holds_of_lt ?_ ?_)
    · have hwide : 4 * (x.significand * (2 ^ x.scale * den)) < 2 * 10 ^ 16 * (below * den) := by
        rcases hbelow with ⟨rfl, heq⟩ | rfl
        · rw [heq]
          omega
        · rw [Nat.mul_assoc 2 (2 ^ x.scale) den]
          omega
      omega
    · omega
  · refine .inr (RoundingInterval.holds_of_lt ?_ ?_)
    · rw [Nat.add_mul]
      omega
    · rw [Nat.add_mul]
      omega

end Binary64

/-! ## Its value -/

namespace ShortDecimal

def toDecimal (d : ShortDecimal) : Decimal := ⟨d.digits, d.exponent⟩

theorem trim_digits_ne_zero (fuel : Nat) {d : ShortDecimal} (h : d.digits ≠ 0) :
    (d.trim fuel).digits ≠ 0 := by
  induction fuel generalizing d with
  | zero => exact h
  | succ fuel ih =>
    rw [trim]
    split
    case isTrue hzero => exact ih (by simp only; omega)
    case isFalse => exact h

theorem trim_digits_le (fuel : Nat) (d : ShortDecimal) : (d.trim fuel).digits ≤ d.digits := by
  induction fuel generalizing d with
  | zero => exact le_rfl
  | succ fuel ih =>
    rw [trim]
    split
    case isTrue => exact (ih _).trans (Nat.div_le_self _ _)
    case isFalse => exact le_rfl

theorem trim_value (fuel : Nat) (d : ShortDecimal) :
    (d.trim fuel).toDecimal.value = d.toDecimal.value := by
  induction fuel generalizing d with
  | zero => rfl
  | succ fuel ih =>
    rw [trim]
    split
    case isTrue hzero =>
      rw [ih]
      have hdigits : (d.digits : ℚ) = (d.digits / 10 : ℕ) * 10 := by
        exact_mod_cast (Nat.div_mul_cancel (Nat.dvd_of_mod_eq_zero hzero.2)).symm
      simp only [toDecimal, Decimal.value]
      rw [hdigits, zpow_add₀ (by norm_num), zpow_one]
      ring
    case isFalse => rfl

end ShortDecimal

namespace Binary64

variable {x : Binary64}

/-- The decimal is found on the first grid that has a number in the interval. -/
theorem exists_shortest (hx : 0 < x.significand) : ∃ count d,
    x.interval.atCount x.point (count + 1) = some d ∧
      (∀ fewer < count, x.interval.atCount x.point (fewer + 1) = none) ∧
      x.shortestDecimal = d.trim maxDigits := by
  have hfound : ((List.range maxDigits).findSome? fun n =>
      x.interval.atCount x.point (n + 1)).isSome = true := by
    rw [List.findSome?_isSome_iff]
    exact ⟨16, by decide, atCount_maxDigits hx⟩
  obtain ⟨d, hd⟩ := Option.isSome_iff_exists.mp hfound
  obtain ⟨before, count, after, hrange, hcount, hnone⟩ := List.findSome?_eq_some_iff.mp hd
  have hlength : before.length = count := by
    have hget : (List.range maxDigits)[before.length]? = some count := by simp [hrange]
    rw [List.getElem?_range (by
      have := congrArg List.length hrange
      simp at this
      omega)] at hget
    exact Option.some.inj hget
  refine ⟨count, d, hcount, fun fewer hfewer => hnone fewer ?_, ?_⟩
  · have hget : (List.range maxDigits)[fewer]? = before[fewer]? := by
      rw [hrange, List.getElem?_append_left (by omega)]
    rw [List.getElem?_range (by
      have := congrArg List.length hrange
      simp at this
      omega)] at hget
    exact List.mem_of_getElem? hget.symm
  · unfold shortestDecimal
    dsimp only
    rw [← point, hd]

theorem shortestDecimal_digits_ne_zero (hx : x.significand ≠ 0) :
    x.shortestDecimal.digits ≠ 0 := by
  obtain ⟨count, d, hd, -, hshortest⟩ := exists_shortest (Nat.pos_of_ne_zero hx)
  rw [hshortest]
  refine ShortDecimal.trim_digits_ne_zero _ fun hzero => ?_
  obtain ⟨-, hholds⟩ := RoundingInterval.atCount_holds hd
  have hbounds := (RoundingInterval.holds_bounds hholds).1
  have hpos := Nat.mul_pos (interval_low_pos (Nat.pos_of_ne_zero hx)) (gridDen_pos d.exponent)
  rw [hzero, Nat.zero_mul] at hbounds
  omega

theorem atCount_digits_le {count : Nat} {d : ShortDecimal} (hx : 0 < x.significand)
    (h : x.interval.atCount x.point count = some d) : d.digits ≤ 10 ^ count := by
  have hvalue : 0 < x.interval.value := by
    rw [interval_value]
    positivity
  have hlower : x.interval.value * gridDen (x.point - count) / gridNum (x.point - count) <
      10 ^ count := by
    rw [Nat.div_lt_iff_lt_mul (gridNum_pos _)]
    have hpoint := lt_decimalPoint hvalue (show 0 < 4 * Nat.pow 2 unitBits by simp)
    rw [← point] at hpoint
    have hden : (0 : ℚ) < gridDen (x.point - count) := by exact_mod_cast gridDen_pos _
    have hmul := mul_lt_mul_of_pos_right hpoint hden
    have hgrid : ((4 * Nat.pow 2 unitBits : ℕ) * 10 ^ x.point * gridDen (x.point - count) : ℚ) =
        10 ^ count * gridNum (x.point - count) := by
      rw [gridNum_eq, zpow_sub₀ (by norm_num), zpow_natCast, Nat.pow_eq]
      push_cast
      field_simp
    rw [hgrid] at hmul
    exact_mod_cast hmul
  rw [RoundingInterval.atCount_eq] at h
  dsimp only at h
  split at h
  case isTrue =>
    obtain rfl := Option.some.inj h
    exact hlower.le
  case isFalse =>
    split at h
    case isTrue =>
      obtain rfl := Option.some.inj h
      exact hlower
    case isFalse => cases h

theorem shortestDecimal_digits_le (hx : 0 < x.significand) :
    x.shortestDecimal.digits ≤ 10 ^ maxDigits := by
  obtain ⟨count, d, hd, hfewer, hshortest⟩ := exists_shortest hx
  have hcount : count + 1 ≤ maxDigits := by
    by_contra hlong
    have hnone := hfewer 16 (by rw [maxDigits] at hlong; omega)
    have hsome := atCount_maxDigits hx
    rw [maxDigits, hnone] at hsome
    cases hsome
  rw [hshortest]
  calc (d.trim maxDigits).digits ≤ d.digits := ShortDecimal.trim_digits_le _ d
    _ ≤ 10 ^ (count + 1) := atCount_digits_le hx hd
    _ ≤ 10 ^ maxDigits := Nat.pow_le_pow_right (by decide) hcount

/-! ## Whole numbers -/

theorem two_pow_unitBits_pos : 0 < 2 ^ unitBits := Nat.pow_pos Nat.two_pos

theorem scale_le_of_whole {n : Nat} (hlt : n < 2 ^ 53)
    (h : x.magnitude = n * 2 ^ unitBits) : 2 ^ x.scale ≤ 2 ^ unitBits := by
  refine Nat.pow_le_pow_right Nat.two_pos (Nat.le_of_not_lt fun hscale => ?_)
  have hnormal : 2 ^ 52 ≤ x.significand := by
    rcases x.normal with hnormal | hzero
    · exact hnormal
    · omega
  have hwide : 2 * 2 ^ unitBits ≤ 2 ^ x.scale := by
    rw [← pow_succ']
    exact Nat.pow_le_pow_right Nat.two_pos hscale
  have hbig : 2 ^ 52 * (2 * 2 ^ unitBits) ≤ x.magnitude := Nat.mul_le_mul hnormal hwide
  have hsmall : n * 2 ^ unitBits < 2 ^ 53 * 2 ^ unitBits :=
    Nat.mul_lt_mul_of_pos_right hlt two_pow_unitBits_pos
  rw [h, ← Nat.mul_assoc] at hbig
  omega

theorem interval_value_of_whole {n : Nat} (h : x.magnitude = n * 2 ^ unitBits) :
    x.interval.value = n * (4 * 2 ^ unitBits) := by
  have : x.interval.value = 4 * x.magnitude := rfl
  rw [this, h]
  ring

theorem point_of_whole {n : Nat} (hn : 0 < n) (h : x.magnitude = n * 2 ^ unitBits) :
    x.point = decimalLength n := by
  have hunit : 0 < 4 * 2 ^ unitBits := Nat.mul_pos (by decide) two_pow_unitBits_pos
  rw [point, interval_value_of_whole h, decimalPoint, Nat.pow_eq,
    if_pos (Nat.le_mul_of_pos_left _ hn), Nat.mul_div_cancel _ hunit]

theorem atCount_of_whole {n : Nat} (hn : 0 < n) (h : x.magnitude = n * 2 ^ unitBits) :
    (x.interval.atCount x.point (decimalLength n)).isSome = true := by
  have hunit : 0 < 4 * 2 ^ unitBits := Nat.mul_pos (by decide) two_pow_unitBits_pos
  have hvalue := interval_value_of_whole h
  refine RoundingInterval.atCount_isSome (e := 0) (by rw [point_of_whole hn h]; omega) (.inl ?_)
  have hnum : gridNum 0 = 4 * 2 ^ unitBits := by simp [gridNum]
  have hden : gridDen 0 = 1 := by simp [gridDen]
  rw [hnum, hden, Nat.mul_one, hvalue, Nat.mul_div_cancel _ hunit, ← hvalue]
  obtain ⟨below, hlow, hbelow⟩ := x.interval_low
  have hhigh := x.interval_high
  have hstep : 0 < 2 ^ x.scale := by positivity
  have hpos : 0 < x.interval.value := hvalue ▸ Nat.mul_pos hn hunit
  refine RoundingInterval.holds_of_lt ?_ ?_
  · rcases hbelow with ⟨rfl, -⟩ | rfl <;> omega
  · omega

/--
A whole number that the format's digits reach is its own shortest decimal: the numbers that round
to it hold no other whole number.
-/
theorem shortestDecimal_of_whole {n : Nat} (hn : 0 < n) (hlt : n < 2 ^ 53)
    (h : x.magnitude = n * 2 ^ unitBits) : x.shortestDecimal.toDecimal.value = n := by
  have hx : 0 < x.significand := by
    rcases Nat.eq_zero_or_pos x.significand with hzero | hpos
    · rw [magnitude, hzero, Nat.zero_mul] at h
      have := Nat.mul_pos hn two_pow_unitBits_pos
      omega
    · exact hpos
  obtain ⟨count, d, hd, hfewer, hshortest⟩ := exists_shortest hx
  rw [hshortest, ShortDecimal.trim_value]
  have hcount : count + 1 ≤ decimalLength n := by
    by_contra hlong
    have hlength := decimalLength_pos n
    have hnone := hfewer (decimalLength n - 1) (by omega)
    rw [Nat.sub_add_cancel hlength] at hnone
    have hsome := atCount_of_whole hn h
    rw [hnone] at hsome
    cases hsome
  obtain ⟨hexponent, hholds⟩ := RoundingInterval.atCount_holds hd
  rw [point_of_whole hn h] at hexponent
  obtain ⟨k, hk⟩ : ∃ k : ℕ, d.exponent = k := ⟨decimalLength n - (count + 1), by omega⟩
  have hnum : gridNum k = 4 * 2 ^ unitBits * 10 ^ k := by simp [gridNum]
  have hden : gridDen k = 1 := by simp [gridDen]
  obtain ⟨hlower, hupper⟩ := RoundingInterval.holds_bounds hholds
  rw [hk, hnum, hden] at hlower hupper
  obtain ⟨below, hlow, hbelow⟩ := x.interval_low
  have hhigh := x.interval_high
  have hscale := scale_le_of_whole hlt h
  have hvalue := interval_value_of_whole h
  have hunit := two_pow_unitBits_pos
  have hdigits : d.digits * 10 ^ k = n := by
    generalize 2 ^ unitBits = unit at *
    rw [show d.digits * (4 * unit * 10 ^ k) = d.digits * 10 ^ k * (4 * unit) by ring] at hlower hupper
    generalize d.digits * 10 ^ k = m at hlower hupper ⊢
    rcases Nat.lt_trichotomy m n with hless | heq | hmore
    · have := Nat.mul_le_mul_right (4 * unit) (Nat.succ_le_of_lt hless)
      rw [Nat.succ_mul] at this
      rcases hbelow with ⟨rfl, -⟩ | rfl <;> omega
    · exact heq
    · have := Nat.mul_le_mul_right (4 * unit) (Nat.succ_le_of_lt hmore)
      rw [Nat.succ_mul] at this
      omega
  rw [ShortDecimal.toDecimal, Decimal.value, hk, zpow_natCast]
  exact_mod_cast hdigits

end Binary64

end JsonSchema

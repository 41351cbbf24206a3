/-!
# Finite binary64 numbers

A finite binary64 number is kept as its sign, its significand and the power of two that
scales it. The unit is the smallest positive number of the format, so the significand and the
scale are natural numbers and every comparison is exact integer arithmetic.
-/

namespace JsonSchema

/-! ## Rounding a quotient -/

/-- The integer nearest to `num / den`; a tie goes to the even neighbour. -/
def roundHalfEven (num den : Nat) : Nat :=
  let quotient := num / den
  let twice := 2 * (num % den)
  if twice < den then quotient
  else if den < twice then quotient + 1
  else quotient + quotient % 2

/-- The smallest positive binary64 number is `2 ^ (-unitBits)`. -/
def unitBits : Nat := 1074

def significandBits : Nat := 53

/-- The largest power of two that scales a significand, counted from the unit. -/
def maxScale : Nat := 2045

/-! ## The numbers -/

/--
The number `±significand * 2 ^ scale`, in units of `2 ^ (-unitBits)`. The significand is as
long as the format allows, so two numbers other than zero are equal only when their fields are.
-/
structure Binary64 where
  negative : Bool
  significand : Nat
  scale : Nat
  significand_lt : significand < Nat.pow 2 significandBits
  normal : Nat.pow 2 (significandBits - 1) ≤ significand ∨ scale = 0
  scale_le : scale ≤ maxScale
deriving DecidableEq, Repr

namespace Binary64

def zero : Binary64 := ⟨false, 0, 0, by decide, by decide, by decide⟩

instance : Inhabited Binary64 := ⟨zero⟩

def magnitude (x : Binary64) : Nat := x.significand * Nat.pow 2 x.scale

def scaled (x : Binary64) : Int := if x.negative then -(x.magnitude : Int) else x.magnitude

def isZero (x : Binary64) : Bool := x.significand == 0

def neg (x : Binary64) : Binary64 := { x with negative := !x.negative }

def abs (x : Binary64) : Binary64 := { x with negative := false }

/-- The number with these fields, where they are in range. -/
def ofFields? (negative : Bool) (significand scale : Nat) : Option Binary64 :=
  if h : significand < Nat.pow 2 significandBits ∧
      (Nat.pow 2 (significandBits - 1) ≤ significand ∨ scale = 0) ∧ scale ≤ maxScale then
    some ⟨negative, significand, scale, h.1, h.2.1, h.2.2⟩
  else none

/--
The number nearest to `±num / den`, a tie going to the even significand. There is none when
the quotient is too large for the format.
-/
def ofRatio? (negative : Bool) (num den : Nat) : Option Binary64 :=
  let units := num * Nat.pow 2 unitBits
  let scale := Nat.log2 (units / den) - (significandBits - 1)
  let significand := roundHalfEven units (den * Nat.pow 2 scale)
  if significand = Nat.pow 2 significandBits then
    ofFields? negative (Nat.pow 2 (significandBits - 1)) (scale + 1)
  else ofFields? negative significand scale

/-- The number nearest to an integer, where the format reaches that far. -/
def ofInt? (n : Int) : Option Binary64 := ofRatio? (decide (n < 0)) n.natAbs 1

/-! ## Reading decimals -/

/-- Decimal exponents beyond this one lie outside the format, above or below. -/
def decimalReach : Nat := 400

/--
The number nearest to `±digits * 10 ^ exponent`. `length` is the count of decimal digits of
`digits`; it decides the far cases without computing a huge power.
-/
def ofDecimal? (negative : Bool) (digits length : Nat) (exponent : Int) : Option Binary64 :=
  if digits = 0 then some { zero with negative }
  else if (length : Int) + exponent > decimalReach then none
  else if (length : Int) + exponent < -(decimalReach : Int) then some { zero with negative }
  else if 0 ≤ exponent then ofRatio? negative (digits * Nat.pow 10 exponent.toNat) 1
  else ofRatio? negative digits (Nat.pow 10 (-exponent).toNat)

/-! ## Integers among them -/

def isIntegral (x : Binary64) : Bool := x.magnitude % Nat.pow 2 unitBits == 0

def truncate (x : Binary64) : Int :=
  let whole : Int := (x.magnitude / Nat.pow 2 unitBits : Nat)
  if x.negative then -whole else whole

/-! ## Arithmetic, each operation rounded once -/

/-- Rounds an exact result; a result of zero takes the sign given for it. -/
def ofScaledRatio? (zeroSign : Bool) (num : Int) (den : Nat) : Option Binary64 :=
  ofRatio? (if num = 0 then zeroSign else decide (num < 0)) num.natAbs den

def add? (x y : Binary64) : Option Binary64 :=
  ofScaledRatio? (x.negative && y.negative) (x.scaled + y.scaled) (Nat.pow 2 unitBits)

def mul? (x y : Binary64) : Option Binary64 :=
  ofScaledRatio? (x.negative != y.negative) (x.scaled * y.scaled) (Nat.pow 2 (2 * unitBits))

def div? (x y : Binary64) : Option Binary64 :=
  ofRatio? (x.negative != y.negative) x.magnitude y.magnitude

end Binary64

end JsonSchema

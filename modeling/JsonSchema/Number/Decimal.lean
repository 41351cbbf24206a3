import JsonSchema.Number.Shortest

/-!
# Decimals with a bounded number of digits

A decimal here is never negative. Every operation is exact first and is then rounded to
`precision` digits, a tie going to the even neighbour.
-/

namespace JsonSchema

/-- The number `coefficient * 10 ^ exponent`. -/
structure Decimal where
  coefficient : Nat
  exponent : Int
deriving DecidableEq, Repr

namespace Decimal

/-- The digits that a result keeps. -/
def precision : Nat := 28

def round (d : Decimal) : Decimal :=
  let excess := decimalLength d.coefficient - precision
  ⟨roundHalfEven d.coefficient (Nat.pow 10 excess), d.exponent + excess⟩

/-- Two decimals as multiples of one power of ten. -/
structure Aligned where
  left : Nat
  right : Nat
  exponent : Int

def align (a b : Decimal) : Aligned :=
  let exponent := min a.exponent b.exponent
  { left := a.coefficient * Nat.pow 10 (a.exponent - exponent).toNat
    right := b.coefficient * Nat.pow 10 (b.exponent - exponent).toNat
    exponent }

def le (a b : Decimal) : Bool := decide ((align a b).left ≤ (align a b).right)

def mul (a b : Decimal) : Decimal := round ⟨a.coefficient * b.coefficient, a.exponent + b.exponent⟩

/-- The difference, for a `b` that is at most `a`. -/
def sub (a b : Decimal) : Decimal :=
  let both := align a b
  round ⟨both.left - both.right, both.exponent⟩

/--
The remainder of a division by a number other than zero. There is none when the whole part of
the quotient has more than `precision` digits.
-/
def remainder? (a b : Decimal) : Option Decimal :=
  let both := align a b
  if Nat.pow 10 precision ≤ both.left / both.right then none
  else some (round ⟨both.left % both.right, both.exponent⟩)

end Decimal

end JsonSchema

import JsonSchema.Number.Basic

/-!
# Multiples of a number

Integers are compared by exact division. As soon as a binary64 number takes part, both numbers
stand for the decimals that their texts show, and a remainder counts as zero when it is within
`tolerance` steps of a multiple.
-/

namespace JsonSchema

/-- A billionth of the step. -/
def tolerance : Decimal := ⟨1, -9⟩

/-- Whether a binary64 number is within `tolerance` of an integer. -/
def Binary64.isNearInteger (x : Binary64) : Bool :=
  let one := Nat.pow 2 unitBits
  let past := x.magnitude % one
  decide (min past (one - past) * Nat.pow 10 9 ≤ one)

namespace Number

/--
Whether the quotient is near an integer when it is computed in binary64. A quotient out of range
is near none.
-/
def quotientIsNearInteger (value divisor : Number) : Bool :=
  match value.toBinary64?, divisor.toBinary64? with
  | some x, some y =>
    match x.div? y with
    | some quotient => quotient.isNearInteger
    | none => false
  | _, _ => false

/-- Whether the value is a multiple of the divisor, which is not zero, by the digits of both. -/
def isMultipleOf (value divisor : Number) : Bool :=
  match value, divisor with
  | .int n, .int d => n % d == 0
  | _, _ =>
    let step := divisor.shownMagnitude.round
    match value.shownMagnitude.remainder? step with
    | some remainder =>
      let slack := step.mul tolerance
      remainder.le slack || (step.sub remainder).le slack
    | none => quotientIsNearInteger value divisor

/--
As `isMultipleOf`, for numbers whose digits are read off their texts. There is no answer where an
integer has no text; two integers are divided without one.
-/
def isMultipleOf? (value divisor : Number) : Option Bool :=
  match value, divisor with
  | .int _, .int _ => some (value.isMultipleOf divisor)
  | _, _ => if value.hasText && divisor.hasText then some (value.isMultipleOf divisor) else none

end Number

end JsonSchema

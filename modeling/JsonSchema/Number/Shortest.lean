import JsonSchema.Number.Binary64

/-!
# The shortest decimal of a binary64 number

`shortestDecimal` finds the fewest decimal digits that read back as the same number, and of
those the nearest ones. `Binary64.text` lays the digits out.
-/

namespace JsonSchema

/-! ## The digits -/

/-- A positive decimal `digits * 10 ^ exponent`. -/
structure ShortDecimal where
  digits : Nat
  exponent : Int
deriving DecidableEq, Repr

/-- Removes trailing zeros, at most `fuel` of them. -/
def ShortDecimal.trim : Nat → ShortDecimal → ShortDecimal
  | 0, d => d
  | fuel + 1, d =>
    if d.digits ≠ 0 ∧ d.digits % 10 = 0 then trim fuel ⟨d.digits / 10, d.exponent + 1⟩ else d

/--
The positive numbers that round to one number of the format: they lie between
`low / (4 * unit)` and `high / (4 * unit)`, and the ends belong to them when `closed`.
The number itself is `value / (4 * unit)`.
-/
structure RoundingInterval where
  low : Nat
  value : Nat
  high : Nat
  closed : Bool

def Binary64.interval (x : Binary64) : RoundingInterval :=
  let step := Nat.pow 2 x.scale
  let below :=
    if x.significand = Nat.pow 2 (significandBits - 1) ∧ x.scale ≠ 0 then step else 2 * step
  { low := 4 * x.magnitude - below
    value := 4 * x.magnitude
    high := 4 * x.magnitude + 2 * step
    closed := x.significand % 2 == 0 }

def RoundingInterval.holds (i : RoundingInterval) (num den : Nat) : Bool :=
  if i.closed then decide (i.low * den ≤ num ∧ num ≤ i.high * den)
  else decide (i.low * den < num ∧ num < i.high * den)

/-- The number of decimal digits of a positive number. -/
def decimalLength (n : Nat) : Nat := (Nat.toDigits 10 n).length

/--
The number of decimal digits before the point of `value / den`, or minus the number of zeros
after the point.
-/
def decimalPoint (value den : Nat) : Int :=
  if den ≤ value then decimalLength (value / den)
  else
    -- `den / value` has `k` digits, so `value / den` is above `10 ^ (-k)`, up to `10 ^ (1 - k)`.
    let k := decimalLength (den / value)
    if 10 * den ≤ value * Nat.pow 10 k then 2 - (k : Int) else 1 - (k : Int)

/--
The best decimal with `count` digits in the interval, if one is there: of the two neighbours
of the value on that grid the nearer one that the interval holds.
-/
def RoundingInterval.atCount (i : RoundingInterval) (point : Int) (count : Nat) :
    Option ShortDecimal :=
  let exponent := point - count
  let unit := 4 * Nat.pow 2 unitBits
  -- A grid point `c` stands for `c * stepNum / stepDen` in units of `1 / (4 * unit)`.
  let stepNum := unit * Nat.pow 10 exponent.toNat
  let stepDen := Nat.pow 10 (-exponent).toNat
  let lower := i.value * stepDen / stepNum
  let upper := lower + 1
  let lowerFits := i.holds (lower * stepNum) stepDen
  let upperFits := i.holds (upper * stepNum) stepDen
  let belowBy := i.value * stepDen - lower * stepNum
  let aboveBy := upper * stepNum - i.value * stepDen
  if lowerFits && (!upperFits || decide (belowBy < aboveBy) ||
      (decide (belowBy = aboveBy) && lower % 2 == 0)) then
    some ⟨lower, exponent⟩
  else if upperFits then some ⟨upper, exponent⟩
  else none

/-- Seventeen digits always suffice. -/
def maxDigits : Nat := 17

/-- The shortest decimal that reads back as the number, which is not zero. -/
def Binary64.shortestDecimal (x : Binary64) : ShortDecimal :=
  let interval := x.interval
  let point := decimalPoint interval.value (4 * Nat.pow 2 unitBits)
  match (List.range maxDigits).findSome? (fun n => interval.atCount point (n + 1)) with
  | some d => d.trim maxDigits
  | none => ⟨0, 0⟩

/-! ## The layout -/

def natText (n : Nat) : String := String.ofList (Nat.toDigits 10 n)

def intText (n : Int) : String := if n < 0 then "-" ++ natText n.natAbs else natText n.natAbs

def zeros (n : Nat) : String := String.ofList (List.replicate n '0')

/--
Digits with a point after the first `point` of them. A number whose point lies among the first
sixteen digits, or at most three zeros before them, is written out, with a fraction of at least
one digit. Any other number has an exponent with a sign and at least two digits.
-/
def layout (digits : String) (point : Int) : String :=
  let count := digits.length
  if -4 < point ∧ point ≤ 16 then
    if point ≤ 0 then "0." ++ zeros (-point).toNat ++ digits
    else if (count : Int) ≤ point then digits ++ zeros (point.toNat - count) ++ ".0"
    else (digits.take point.toNat).toString ++ "." ++ (digits.drop point.toNat).toString
  else
    let exponent := point - 1
    let sign := if exponent < 0 then "-" else "+"
    let size := natText exponent.natAbs
    let size := if size.length < 2 then "0" ++ size else size
    let fraction := if count = 1 then "" else "." ++ (digits.drop 1).toString
    (digits.take 1).toString ++ fraction ++ "e" ++ sign ++ size

/-- The text of a finite number; it always shows that the number is not an integer literal. -/
def Binary64.text (x : Binary64) : String :=
  let sign := if x.negative then "-" else ""
  if x.isZero then sign ++ "0.0"
  else
    let d := x.shortestDecimal
    let digits := natText d.digits
    sign ++ layout digits (d.exponent + digits.length)

end JsonSchema

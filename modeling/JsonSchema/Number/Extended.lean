import JsonSchema.Json.Read
import JsonSchema.Number.Numeral
import JsonSchema.Text.Basic

/-!
# Numbers with infinities

A number that is too large for binary64 is infinite here, and one that has no value is not a number.
-/

namespace JsonSchema

inductive Extended where
  | finite (x : Binary64)
  | infinite (negative : Bool)
  | notANumber
deriving DecidableEq, Repr

namespace Extended

instance : Inhabited Extended := ⟨.finite .zero⟩

/-- A rounded result, or the infinity with its sign where it is too large. -/
def ofFinite? (negative : Bool) : Option Binary64 → Extended
  | some x => .finite x
  | none => .infinite negative

def neg : Extended → Extended
  | .finite x => .finite x.neg
  | .infinite negative => .infinite !negative
  | .notANumber => .notANumber

def add : Extended → Extended → Extended
  | .finite x, .finite y => ofFinite? (decide (x.scaled + y.scaled < 0)) (x.add? y)
  | .infinite a, .infinite b => if a = b then .infinite a else .notANumber
  | .infinite a, .finite _ | .finite _, .infinite a => .infinite a
  | .notANumber, _ | _, .notANumber => .notANumber

def scale (x : Extended) (factor : Binary64) : Extended :=
  match x with
  | .finite x => ofFinite? x.negative (x.mul? factor)
  | other => other

def text : Extended → String
  | .finite x => x.text
  | .infinite negative => if negative then "-inf" else "inf"
  | .notANumber => "nan"

/-! ## Reading -/

/-- A digit of any script becomes the ASCII digit of its value. -/
def asciiDigit (c : Char) : Char :=
  match decimalValue? c with
  | some n => Char.ofNat (48 + n)
  | none => c

def fractionPart : List Char → List Char × List Char
  | '.' :: rest => rest.span JsonReader.isAsciiDigit
  | cs => ([], cs)

/-- The value of an exponent that takes all of the text; no text is the exponent zero. -/
def exponentPart? : List Char → Option Int
  | [] => some 0
  | e :: rest =>
    let (negative, digits) := Numeral.dropSign rest
    if (e == 'e' || e == 'E') && !digits.isEmpty && digits.all JsonReader.isAsciiDigit then
      let n : Int := JsonReader.digitsValue digits
      some (if negative then -n else n)
    else none

/-- A decimal number without a sign: digits on one side of the point at least. -/
def unsigned? (negative : Bool) (cs : List Char) : Option Extended := do
  let (whole, rest) := cs.span JsonReader.isAsciiDigit
  let (fraction, rest) := fractionPart rest
  if whole.isEmpty && fraction.isEmpty then none
  let exponent ← exponentPart? rest
  return ofFinite? negative (JsonReader.binary64Of negative whole fraction exponent)

/-- Reads a number that may be written as a word. -/
def ofText? (text : String) : Option Extended :=
  let (negative, cs) := Numeral.dropSign ((Numeral.trim text.toList).map asciiDigit)
  match lowerAscii (String.ofList cs) with
  | "inf" | "infinity" => some (.infinite negative)
  | "nan" => some .notANumber
  | _ => unsigned? negative cs

end Extended

end JsonSchema

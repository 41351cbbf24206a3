import JsonSchema.Number.Decimal

/-!
# Numbers

A number is an integer of any size or a finite binary64 number. Both have an exact value, and
numbers compare by it.
-/

namespace JsonSchema

inductive Number where
  | int (n : Int)
  | float (x : Binary64)
deriving DecidableEq, Repr

/-- The largest count of digits that an integer may have in a text. -/
def maxIntegerDigits : Nat := 4300

namespace Number

instance : Inhabited Number := ⟨.int 0⟩

/-- The exact value in units of `2 ^ (-unitBits)`. -/
def scaled : Number → Int
  | .int n => n * (Nat.pow 2 unitBits : Nat)
  | .float x => x.scaled

/-- Equality of values: an integer may equal a binary64 number. -/
def same (a b : Number) : Bool := a.scaled == b.scaled

def lt (a b : Number) : Bool := decide (a.scaled < b.scaled)

def le (a b : Number) : Bool := decide (a.scaled ≤ b.scaled)

/-- Whether the value is an integer, however it is written. -/
def isIntegral : Number → Bool
  | .int _ => true
  | .float x => x.isIntegral

def truncate : Number → Int
  | .int n => n
  | .float x => x.truncate

def text : Number → String
  | .int n => intText n
  | .float x => x.text

/--
Whether a number has a text. No JSON text can give an integer that is too long for one, but the text
of a YAML document can.
-/
def hasText : Number → Bool
  | .int n => decide (decimalLength n.natAbs ≤ maxIntegerDigits)
  | .float _ => true

/-- The magnitude of a number as the decimal that its text shows. -/
def shownMagnitude : Number → Decimal
  | .int n => ⟨n.natAbs, 0⟩
  | .float x => if x.isZero then ⟨0, -1⟩ else ⟨x.shortestDecimal.digits, x.shortestDecimal.exponent⟩

/-- The nearest binary64 number, where the format reaches that far. -/
def toBinary64? : Number → Option Binary64
  | .int n => Binary64.ofInt? n
  | .float x => some x

end Number

end JsonSchema

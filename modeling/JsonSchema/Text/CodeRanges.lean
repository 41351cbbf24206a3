/-!
# Sets of characters as ranges of code points
-/

namespace JsonSchema

/-- Pairs of a first and a last code point, in increasing order. -/
abbrev CodeRanges := Array (Nat × Nat)

def CodeRanges.holds (ranges : CodeRanges) (code : Nat) : Bool :=
  ranges.any fun range => decide (range.1 ≤ code) && decide (code ≤ range.2)

/-!
## White space

A character is blank when it separates words: the Unicode spaces, the line ends and the
four information separators.
-/

def blankRanges : CodeRanges :=
  #[(9, 13), (28, 32), (133, 133), (160, 160), (5760, 5760), (8192, 8202), (8232, 8233),
   (8239, 8239), (8287, 8287), (12288, 12288)]

def isBlank (c : Char) : Bool := blankRanges.holds c.toNat

/-- The text without the blanks at its two ends. -/
def stripBlanks (s : String) : String :=
  String.ofList ((s.toList.dropWhile isBlank).reverse.dropWhile isBlank).reverse

/-!
## Digits

A decimal digit is one of the ten digits of some script. Every script keeps its ten digits in
order, so the code point of its zero gives all ten. A digit character may also be a superscript,
a subscript or a digit in an ornament; these have no place in a decimal numeral.
-/

def zeroCodes : Array Nat :=
  #[48, 1632, 1776, 1984, 2406, 2534, 2662, 2790, 2918, 3046, 3174, 3302, 3430, 3558, 3664, 3792,
   3872, 4160, 4240, 6112, 6160, 6470, 6608, 6784, 6800, 6992, 7088, 7232, 7248, 42528, 43216,
   43264, 43472, 43504, 43600, 44016, 65296, 66720, 68912, 69734, 69872, 69942, 70096, 70384,
   70736, 70864, 71248, 71360, 71472, 71904, 72016, 72784, 73040, 73120, 92768, 92864, 93008,
   120782, 120792, 120802, 120812, 120822, 123200, 123632, 125264, 130032]

/-- The value of a decimal digit of any script. -/
def decimalValue? (c : Char) : Option Nat :=
  (zeroCodes.find? fun start => decide (start ≤ c.toNat) && decide (c.toNat < start + 10)).map
    (c.toNat - ·)

def isDecimalDigit (c : Char) : Bool := (decimalValue? c).isSome

/-- Digit characters that are not decimal digits. -/
def ornamentalDigitRanges : CodeRanges :=
  #[(178, 179), (185, 185), (4969, 4977), (6618, 6618), (8304, 8304), (8308, 8313), (8320, 8329),
   (9312, 9320), (9332, 9340), (9352, 9360), (9450, 9450), (9461, 9469), (9471, 9471),
   (10102, 10110), (10112, 10120), (10122, 10130), (68160, 68163), (69216, 69224), (69714, 69722),
   (127232, 127242)]

def isDigitCharacter (c : Char) : Bool := isDecimalDigit c || ornamentalDigitRanges.holds c.toNat

/-- The value of a row of decimal digits, if every character is one. -/
def decimalNumeral? (digits : List Char) : Option Nat :=
  digits.foldlM (fun n c => (decimalValue? c).map (10 * n + ·)) 0

end JsonSchema

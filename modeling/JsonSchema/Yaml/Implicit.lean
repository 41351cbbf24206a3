import JsonSchema.Text.Basic

/-!
# The tags that scalars take from their text

A scalar without a tag and without quotes is an integer, a number, a truth value or nothing when
its text has that form, and a string otherwise. A line break at the very end of the text does not
count.
-/

namespace JsonSchema.Yaml

/-- The start of the tags that YAML itself defines. -/
def yamlTagStart : String := "tag:yaml.org,2002:"

namespace Tag

def str : String := yamlTagStart ++ "str"
def seq : String := yamlTagStart ++ "seq"
def map : String := yamlTagStart ++ "map"
def null : String := yamlTagStart ++ "null"
def bool : String := yamlTagStart ++ "bool"
def int : String := yamlTagStart ++ "int"
def float : String := yamlTagStart ++ "float"
def merge : String := yamlTagStart ++ "merge"
def value : String := yamlTagStart ++ "value"
def yaml : String := yamlTagStart ++ "yaml"
def binary : String := yamlTagStart ++ "binary"
def timestamp : String := yamlTagStart ++ "timestamp"
def omap : String := yamlTagStart ++ "omap"
def pairs : String := yamlTagStart ++ "pairs"
def set : String := yamlTagStart ++ "set"

end Tag

namespace Implicit

def isSign (c : Char) : Bool := c == '+' || c == '-'

def dropSign : List Char → List Char
  | c :: rest => if isSign c then rest else c :: rest
  | [] => []

def isDigitOrMark (c : Char) : Bool := c.isDigit || c == '_'

/-- A digit, and digits and underscores behind it. -/
def isNumeral : List Char → Bool
  | c :: rest => c.isDigit && rest.all isDigitOrMark
  | [] => false

/-! ## Truth values and null -/

/-- A word in small letters, in capital letters, or with a capital first. -/
def spellings (word : String) : List String := [word, word.capitalize, word.toUpper]

def truthWords : List String := ["yes", "no", "true", "false", "on", "off"].flatMap spellings

def nullWords : List String := "~" :: spellings "null"

/-! ## Integers -/

/-- A part behind a colon: a number below sixty, of one or two digits. -/
def isSixtieth : List Char → Bool
  | [c] => c.isDigit
  | [a, b] => decide ('0' ≤ a) && decide (a ≤ '5') && b.isDigit
  | _ => false

def isHexDigitOrMark (c : Char) : Bool :=
  isDigitOrMark c || (decide ('a' ≤ c) && decide (c ≤ 'f')) ||
    (decide ('A' ≤ c) && decide (c ≤ 'F'))

def isUnsignedInteger : List Char → Bool
  | ['0'] => true
  | '0' :: 'b' :: rest => !rest.isEmpty && rest.all fun c => c == '0' || c == '1' || c == '_'
  | '0' :: 'x' :: rest => !rest.isEmpty && rest.all isHexDigitOrMark
  | '0' :: rest => rest.all fun c => (decide ('0' ≤ c) && decide (c ≤ '7')) || c == '_'
  | cs =>
    match splitChars ':' cs with
    | first :: rest => isNumeral first && rest.all isSixtieth
    | [] => false

def isInteger (cs : List Char) : Bool := isUnsignedInteger (dropSign cs)

/-! ## Other numbers -/

/-- An exponent with a sign, or nothing. -/
def isExponent : List Char → Bool
  | [] => true
  | e :: sign :: rest =>
    (e == 'e' || e == 'E') && isSign sign && !rest.isEmpty && rest.all Char.isDigit
  | _ => false

def isFraction (cs : List Char) : Bool := isExponent (cs.dropWhile isDigitOrMark)

/-- The last of the parts between colons: it has a fraction. -/
def isLastSixtieth (cs : List Char) : Bool :=
  match cutChars? '.' cs with
  | some (whole, fraction) => isSixtieth whole && fraction.all isDigitOrMark
  | none => false

def isUnsignedFloat (cs : List Char) : Bool :=
  match splitChars ':' cs with
  | [_] =>
    match cutChars? '.' cs with
    | some (whole, fraction) => isNumeral whole && isFraction fraction
    | none => false
  | first :: rest =>
    isNumeral first && rest.dropLast.all isSixtieth && (rest.getLast?.any isLastSixtieth)
  | [] => false

/-- A number without a whole part, which takes no sign. -/
def isBareFraction : List Char → Bool
  | '.' :: c :: rest => c.isDigit && isFraction rest
  | _ => false

def infinityWords : List String := [".inf", ".Inf", ".INF"]

def nanWords : List String := [".nan", ".NaN", ".NAN"]

def isFloat (cs : List Char) : Bool :=
  isUnsignedFloat (dropSign cs) || isBareFraction cs ||
    infinityWords.contains (String.ofList (dropSign cs)) || nanWords.contains (String.ofList cs)

end Implicit

open Implicit in
def implicitTag (text : String) : String :=
  let cs := text.toList
  let cs := if cs.getLast? == some '\n' then cs.dropLast else cs
  let line := String.ofList cs
  if text.isEmpty then Tag.null
  else if cs.isEmpty then Tag.str
  else if truthWords.contains line then Tag.bool
  else if isFloat cs then Tag.float
  else if isInteger cs then Tag.int
  else if line == "<<" then Tag.merge
  else if nullWords.contains line then Tag.null
  else if line == "=" then Tag.value
  else if ["!", "&", "*"].contains line then Tag.yaml
  else Tag.str

end JsonSchema.Yaml

import JsonSchema.Regex.Basic
import JsonSchema.Text.CodeRanges
import JsonSchema.Text.Case
import JsonSchema.Text.Word

/-!
# Single characters

Whether one character of a text matches a character, a set or a class of an expression. Without
regard to letter case, two characters match when their lower cases are equal or look alike.
-/

namespace JsonSchema.Regex

/-! ## Letter case -/

/-- Lower-case code points that have the same upper case as another one. -/
def lookAlikes : List (Nat × List Nat) :=
  [(105, [305]), (115, [383]), (181, [956]), (305, [105]), (383, [115]), (837, [953, 8126]),
   (912, [8147]), (944, [8163]), (946, [976]), (949, [1013]), (952, [977]), (953, [837, 8126]),
   (954, [1008]), (956, [181]), (960, [982]), (961, [1009]), (962, [963]), (963, [962]),
   (966, [981]), (976, [946]), (977, [952]), (981, [966]), (982, [960]), (1008, [954]),
   (1009, [961]), (1013, [949]), (1074, [7296]), (1076, [7297]), (1086, [7298]), (1089, [7299]),
   (1090, [7300, 7301]), (1098, [7302]), (1123, [7303]), (7296, [1074]), (7297, [1076]),
   (7298, [1086]), (7299, [1089]), (7300, [1090, 7301]), (7301, [1090, 7300]), (7302, [1098]),
   (7303, [1123]), (7304, [42571]), (7777, [7835]), (7835, [7777]), (8126, [837, 953]),
   (8147, [912]), (8163, [944]), (42571, [7304]), (64261, [64262]), (64262, [64261])]
/-- How characters are compared. -/
inductive Folding where
  /-- Exactly. -/
  | none
  /-- Without regard to the case of ASCII letters. -/
  | ascii
  /-- Without regard to the case of all letters. -/
  | full
deriving DecidableEq, Repr

def Flags.folding (flags : Flags) : Folding :=
  if !flags.has .ignoreCase then .none
  else if flags.has .ascii then .ascii
  else .full

def lowerAsciiCode (code : Nat) : Nat := if 65 ≤ code ∧ code ≤ 90 then code + 32 else code

def isAsciiLetterCode (code : Nat) : Bool :=
  decide (97 ≤ lowerAsciiCode code) && decide (lowerAsciiCode code ≤ 122)

namespace Folding

def lower : Folding → Nat → Nat
  | .none, code => code
  | .ascii, code => lowerAsciiCode code
  | .full, code => lowerCode code

def isCased : Folding → Nat → Bool
  | .none, _ => false
  | .ascii, code => isAsciiLetterCode code
  | .full, code => isCasedCode code

/-- The code points that a lower-case one is equal to. -/
def alike : Folding → Nat → List Nat
  | .full, code => code :: (lookAlikes.lookup code).getD []
  | _, code => [code]

end Folding

/-! ## Classes -/

def isAsciiSpace (c : Char) : Bool := c == ' ' || (decide (9 ≤ c.toNat) && decide (c.toNat ≤ 13))

def Category.holds (ascii : Bool) (category : Category) (c : Char) : Bool :=
  match category, ascii with
  | .digit, true => c.isDigit
  | .digit, false => isDecimalDigit c
  | .space, true => isAsciiSpace c
  | .space, false => isBlank c
  | .word, true => c == '_' || c.isAlphanum
  | .word, false => isWordCharacter c

/-! ## Characters and sets -/

def charMatches (folding : Folding) (code : Nat) (c : Char) : Bool :=
  if folding.isCased code then
    (folding.alike (folding.lower code)).contains (folding.lower c.toNat)
  else c.toNat == code

/-- The code points whose lower case is this one. -/
def Folding.raised (folding : Folding) (code : Nat) : List Nat :=
  match folding with
  | .none => [code]
  | .ascii => if 97 ≤ code ∧ code ≤ 122 then [code, code - 32] else [code]
  | .full => code :: lowerRuns.toList.filterMap fun run =>
    let upper := ((code : Int) - run.shift).toNat
    if run.holds upper then some upper else Option.none

/-- Whether a code point of the range has this lower case, or one that looks alike. -/
def rangeHolds (folding : Folding) (low high lower : Nat) : Bool :=
  ((folding.alike lower).flatMap folding.raised).any fun code =>
    decide (low ≤ code) && decide (code ≤ high)

/-- Whether a range holds a code point that has another case. -/
def rangeIsCased (folding : Folding) (low high : Nat) : Bool :=
  match folding with
  | .none => false
  | .ascii => (decide (low ≤ 90) && decide (65 ≤ high)) ||
    (decide (low ≤ 122) && decide (97 ≤ high))
  | .full => decide (0xFFFF < high) ||
    casedRanges.any fun range => decide (low ≤ range.2) && decide (range.1 ≤ high)

/-- Whether the case of a text matters for a member of a set. -/
def SetItem.isCased (folding : Folding) : SetItem → Bool
  | .char code =>
    folding.isCased code || (folding != .none && decide (0xFFFF < folding.lower code))
  | .range low high => rangeIsCased folding low high
  | .category _ _ => false

def SetItem.holds (ascii : Bool) (c : Char) : SetItem → Bool
  | .char code => c.toNat == code
  | .range low high => decide (low ≤ c.toNat) && decide (c.toNat ≤ high)
  | .category kind negated => kind.holds ascii c != negated

/-- Whether a lower-case code point belongs to a member of a set. -/
def SetItem.holdsFolded (folding : Folding) (ascii : Bool) (lower : Nat) : SetItem → Bool
  | .char code =>
    -- Beyond the first plane a set keeps the case that is written in it.
    if 0xFFFF < folding.lower code then lower == code
    else (folding.alike (folding.lower code)).contains lower
  | .range low high => rangeHolds folding low high lower
  | .category kind negated => kind.holds ascii (Char.ofNat lower) != negated

def setMatches (folding : Folding) (ascii negated : Bool) (items : List SetItem) (c : Char) :
    Bool :=
  let found :=
    if items.any (·.isCased folding) then
      items.any (·.holdsFolded folding ascii (folding.lower c.toNat))
    else items.any (·.holds ascii c)
  found != negated

end JsonSchema.Regex

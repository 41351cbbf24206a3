import JsonSchema.Json.Literal
import JsonSchema.Json.Read
import JsonSchema.Text.CodeRanges

/-!
# Integers in text

An integer may have blanks around it, a sign, single underscores between its digits, and digits
of any script. In the bases 2, 8 and 16 its letter may stand in front, behind a zero.
-/

namespace JsonSchema

inductive NumeralFault where
  | notAnInteger (base : Nat) (text : String)
  | tooManyDigits (count : Nat)
deriving DecidableEq, Repr

/-- A message quotes so many characters of a literal at most. -/
def quotedLength : Nat := 200

def notAnIntegerMessage (base : Nat) (text : String) : String :=
  "invalid literal for int() with base " ++ natText base ++ ": " ++
    String.ofList ((stringLiteral text).toList.take quotedLength)

def tooManyDigitsMessage (count : Nat) : String :=
  "Exceeds the limit (" ++ natText maxIntegerDigits ++
    " digits) for integer string conversion: value has " ++ natText count ++
    " digits; use sys.set_int_max_str_digits() to increase the limit"

def noTextMessage : String :=
  "Exceeds the limit (" ++ natText maxIntegerDigits ++
    " digits) for integer string conversion; use sys.set_int_max_str_digits() to increase the limit"

def NumeralFault.message : NumeralFault → String
  | .notAnInteger base text => notAnIntegerMessage base text
  | .tooManyDigits count => tooManyDigitsMessage count

namespace Numeral

/-- The information separators are blank elsewhere, but not around a number. -/
def isSpace (c : Char) : Bool := isBlank c && !(decide (28 ≤ c.toNat) && decide (c.toNat ≤ 31))

def trim (cs : List Char) : List Char :=
  ((cs.dropWhile isSpace).reverse.dropWhile isSpace).reverse

/-- A decimal digit of any script, or a Latin letter that stands for ten and more. -/
def digit? (base : Nat) (c : Char) : Option Nat :=
  let value := match decimalValue? c with
    | some n => some n
    | none =>
      if 'a' ≤ c ∧ c ≤ 'z' then some (c.toNat - 87)
      else if 'A' ≤ c ∧ c ≤ 'Z' then some (c.toNat - 55)
      else none
  value.filter (decide <| · < base)

/-- Digits with single underscores between them. -/
def digits? (base : Nat) : List Char → Option (List Nat)
  | [] => none
  | c :: rest =>
    match digit? base c, rest with
    | none, _ => none
    | some d, [] => some [d]
    | some d, '_' :: more => (digits? base more).map (d :: ·)
    | some d, more => (digits? base more).map (d :: ·)

def baseLetter? : Nat → Option Char
  | 2 => some 'b'
  | 8 => some 'o'
  | 16 => some 'x'
  | _ => none

/-- The text after a zero and the letter of its base; an underscore may follow them. -/
def dropBaseLetter (base : Nat) (cs : List Char) : List Char :=
  match cs with
  | '0' :: c :: rest =>
    if baseLetter? base = some c.toLower then
      match rest with
      | '_' :: more => more
      | rest => rest
    else cs
  | cs => cs

def dropSign : List Char → Bool × List Char
  | '-' :: rest => (true, rest)
  | '+' :: rest => (false, rest)
  | cs => (false, cs)

/-- Whether a base is a power of two, so that a text of any length is read digit by digit. -/
def isUnlimited (base : Nat) : Bool := (baseLetter? base).isSome

end Numeral

/-- Reads an integer in a base up to 36. -/
def readInteger (base : Nat) (text : String) : Except NumeralFault Int :=
  let (negative, cs) := Numeral.dropSign (Numeral.trim text.toList)
  match Numeral.digits? base (Numeral.dropBaseLetter base cs) with
  | none => .error (.notAnInteger base text)
  | some digits =>
    if !Numeral.isUnlimited base && decide (maxIntegerDigits < digits.length) then
      .error (.tooManyDigits digits.length)
    else
      let n := digits.foldl (fun n d => base * n + d) 0
      .ok (if negative then -(n : Int) else n)

/-! ## Values with a text -/

namespace Json

mutual

/-- Whether every number in a value has a text. -/
def hasText : Json → Bool
  | .num n => n.hasText
  | .arr items => itemsHaveText items
  | .obj members => membersHaveText members
  | _ => true

def itemsHaveText : List Json → Bool
  | [] => true
  | item :: items => item.hasText && itemsHaveText items

def membersHaveText : List (String × Json) → Bool
  | [] => true
  | (_, value) :: members => value.hasText && membersHaveText members

end

theorem itemsHaveText_iff {items : List Json} :
    itemsHaveText items = true ↔ ∀ item ∈ items, item.hasText = true := by
  induction items with
  | nil => simp [itemsHaveText]
  | cons item rest ih => simp [itemsHaveText, ih]

theorem membersHaveText_iff {members : Members Json} :
    membersHaveText members = true ↔ ∀ member ∈ members, member.2.hasText = true := by
  induction members with
  | nil => simp [membersHaveText]
  | cons member rest ih => simp [membersHaveText, ih]

end Json

end JsonSchema

import JsonSchema.Json.Basic
import JsonSchema.Number.Shortest

/-!
# Reading JSON text

The reader walks the list of characters once. A fault names its cause and, for a fault of syntax,
where it was found: as the number of characters that were left.
-/

namespace JsonSchema

/-! ## Faults -/

inductive SyntaxFault where
  | expectingValue
  | expectingName
  | expectingColon
  | expectingComma
  | unterminatedString
  | controlCharacter
  | badEscape
  | badUnicodeEscape
  | extraData
  | byteOrderMark
deriving DecidableEq, Repr

def SyntaxFault.message : SyntaxFault → String
  | .expectingValue => "Expecting value"
  | .expectingName => "Expecting property name enclosed in double quotes"
  | .expectingColon => "Expecting ':' delimiter"
  | .expectingComma => "Expecting ',' delimiter"
  | .unterminatedString => "Unterminated string starting at"
  | .controlCharacter => "Invalid control character at"
  | .badEscape => "Invalid \\escape"
  | .badUnicodeEscape => "Invalid \\uXXXX escape"
  | .extraData => "Extra data"
  | .byteOrderMark => "Unexpected UTF-8 BOM (decode using utf-8-sig)"

inductive JsonFault where
  /-- Bad syntax, with so many characters left at the place. -/
  | atRest (fault : SyntaxFault) (left : Nat)
  /-- The name of a number that JSON does not have. -/
  | constant (name : String)
  /-- A number beyond the largest finite one. -/
  | outOfRange (text : String)
  | tooManyDigits (count : Nat)
  | tooDeep
deriving DecidableEq, Repr

namespace JsonReader

abbrev Chars := List Char

def fail {α : Type} (fault : SyntaxFault) (rest : Chars) : Except JsonFault α :=
  .error (.atRest fault rest.length)

def isSpace (c : Char) : Bool := c == ' ' || c == '\t' || c == '\n' || c == '\r'

def skipSpace (cs : Chars) : Chars := cs.dropWhile isSpace

/-! ## Strings -/

def hexValue? (c : Char) : Option Nat :=
  if '0' ≤ c ∧ c ≤ '9' then some (c.toNat - 48)
  else if 'a' ≤ c ∧ c ≤ 'f' then some (c.toNat - 87)
  else if 'A' ≤ c ∧ c ≤ 'F' then some (c.toNat - 55)
  else none

def hexUnit? (a b c d : Char) : Option Nat := do
  let a ← hexValue? a
  let b ← hexValue? b
  let c ← hexValue? c
  let d ← hexValue? d
  return ((a * 16 + b) * 16 + c) * 16 + d

def isHighUnit (n : Nat) : Bool := decide (0xD800 ≤ n) && decide (n < 0xDC00)

def isLowUnit (n : Nat) : Bool := decide (0xDC00 ≤ n) && decide (n < 0xE000)

/-- The character of a UTF-16 unit; half of a pair has none of its own. -/
def unitChar (n : Nat) : Char :=
  if isHighUnit n || isLowUnit n then '\uFFFD' else Char.ofNat n

def joinUnits (high low : Nat) : Char :=
  Char.ofNat (0x10000 + (high - 0xD800) * 1024 + (low - 0xDC00))

def simpleEscape? (c : Char) : Option Char :=
  match c with
  | '"' => some '"'
  | '\\' => some '\\'
  | '/' => some '/'
  | 'b' => some '\x08'
  | 'f' => some '\x0c'
  | 'n' => some '\n'
  | 'r' => some '\r'
  | 't' => some '\t'
  | _ => none

/--
The low half of a pair of UTF-16 units, where its escape follows: the text after the high half
has to be longer than the escape.
-/
def lowUnit? : Chars → Except JsonFault (Option Nat)
  | '\\' :: 'u' :: a :: b :: c :: d :: last :: more =>
    match hexUnit? a b c d with
    | none => fail .badUnicodeEscape ('u' :: a :: b :: c :: d :: last :: more)
    | some unit => .ok (if isLowUnit unit then some unit else none)
  | _ => .ok none

/--
The character of an escape and the number of characters that the escape takes after its
backslash; `start` is the text from the opening quote on.
-/
def readEscape (start : Chars) : Chars → Except JsonFault (Char × Nat)
  | [] => fail .unterminatedString start
  | 'u' :: a :: b :: c :: d :: last :: more =>
    match hexUnit? a b c d with
    | none => fail .badUnicodeEscape ('u' :: a :: b :: c :: d :: last :: more)
    | some unit => do
      if isHighUnit unit then
        match ← lowUnit? (last :: more) with
        | some low => return (joinUnits unit low, 11)
        | none => return (unitChar unit, 5)
      else return (unitChar unit, 5)
  | 'u' :: rest => fail .badUnicodeEscape ('u' :: rest)
  | c :: rest =>
    match simpleEscape? c with
    | some c' => .ok (c', 1)
    | none => fail .badEscape ('\\' :: c :: rest)

/--
The rest of a string after its opening quote; `start` is the text from that quote on and `done`
holds the characters read so far, last first.
-/
def readString (start : Chars) (done : Chars) (cs : Chars) : Except JsonFault (String × Chars) :=
  match cs with
  | [] => fail .unterminatedString start
  | '"' :: rest => .ok (String.ofList done.reverse, rest)
  | '\\' :: rest =>
    match readEscape start rest with
    | .ok (c, count) => readString start (c :: done) (rest.drop count)
    | .error fault => .error fault
  | c :: rest =>
    if c.toNat < 32 then fail .controlCharacter (c :: rest)
    else readString start (c :: done) rest
termination_by cs.length

/-! ## Numbers -/

def isAsciiDigit (c : Char) : Bool := decide ('0' ≤ c) && decide (c ≤ '9')

def digitValue (c : Char) : Nat := c.toNat - 48

def digitsValue (cs : Chars) : Nat := cs.foldl (fun n c => 10 * n + digitValue c) 0

def fractionOf : Chars → Chars × Chars
  | '.' :: c :: rest =>
    if isAsciiDigit c then ((c :: rest).takeWhile isAsciiDigit, (c :: rest).dropWhile isAsciiDigit)
    else ([], '.' :: c :: rest)
  | cs => ([], cs)

structure Exponent where
  letter : Char
  sign : Option Char
  digits : Chars

def Exponent.value (e : Exponent) : Int :=
  if e.sign = some '-' then -(digitsValue e.digits : Int) else digitsValue e.digits

def exponentOf : Chars → Option Exponent × Chars
  | c :: rest =>
    if c == 'e' || c == 'E' then
      let (sign, digits) := match rest with
        | s :: more => if s == '+' || s == '-' then (some s, more) else (none, rest)
        | [] => (none, [])
      if (digits.takeWhile isAsciiDigit).isEmpty then (none, c :: rest)
      else (some ⟨c, sign, digits.takeWhile isAsciiDigit⟩, digits.dropWhile isAsciiDigit)
    else (none, c :: rest)
  | [] => (none, [])

/-- Leading zeros of a row of digits say nothing about the size of its number. -/
def significantLength (digits : Chars) : Nat := (digits.dropWhile (· == '0')).length

/-- The binary64 number that a decimal text writes, if it is in range. -/
def binary64Of (negative : Bool) (whole fraction : Chars) (exponent : Int) : Option Binary64 :=
  let digits := whole ++ fraction
  Binary64.ofDecimal? negative (digitsValue digits) (significantLength digits)
    (exponent - fraction.length)

/-- The whole part of a number: a zero stands alone. -/
def wholeOf : Chars → Chars × Chars
  | '0' :: rest => (['0'], rest)
  | cs => (cs.takeWhile isAsciiDigit, cs.dropWhile isAsciiDigit)

/-- A number whose sign, if any, has been read; `start` is the text from the sign on. -/
def readNumber (start : Chars) (negative : Bool) (cs : Chars) : Except JsonFault (Json × Chars) :=
  let (whole, afterWhole) := wholeOf cs
  if whole.isEmpty then fail .expectingValue start
  else
    let (fraction, afterFraction) := fractionOf afterWhole
    let (exponent, rest) := exponentOf afterFraction
    if fraction.isEmpty && exponent.isNone then
      if maxIntegerDigits < whole.length then .error (.tooManyDigits whole.length)
      else
        let n : Int := digitsValue whole
        .ok (.int (if negative then -n else n), rest)
    else
      match binary64Of negative whole fraction ((exponent.map (·.value)).getD 0) with
      | some x => .ok (.float x, rest)
      | none =>
        .error (.outOfRange (String.ofList (start.take (start.length - rest.length))))

/-! ## Values -/

def after? (word : String) (cs : Chars) : Option Chars :=
  if word.toList.isPrefixOf cs then some (cs.drop word.length) else none

def readScalar (cs : Chars) : Except JsonFault (Json × Chars) :=
  match cs with
  | 'n' :: _ => match after? "null" cs with
    | some rest => .ok (.null, rest)
    | none => fail .expectingValue cs
  | 't' :: _ => match after? "true" cs with
    | some rest => .ok (.bool true, rest)
    | none => fail .expectingValue cs
  | 'f' :: _ => match after? "false" cs with
    | some rest => .ok (.bool false, rest)
    | none => fail .expectingValue cs
  | 'N' :: _ =>
    if (after? "NaN" cs).isSome then .error (.constant "NaN") else fail .expectingValue cs
  | 'I' :: _ =>
    if (after? "Infinity" cs).isSome then .error (.constant "Infinity")
    else fail .expectingValue cs
  | '-' :: rest =>
    if (after? "-Infinity" cs).isSome then .error (.constant "-Infinity")
    else readNumber cs true rest
  | _ => readNumber cs false cs

mutual

/--
A value at the start of the text. Containers may nest `depth` levels further; `fuel` is above
twice the number of characters left.
-/
def readValue (fuel depth : Nat) (cs : Chars) : Except JsonFault (Json × Chars) :=
  match fuel with
  | 0 => .error .tooDeep
  | fuel + 1 =>
    match cs with
    | [] => fail .expectingValue cs
    | '"' :: rest => do
      let (s, rest) ← readString cs [] rest
      return (.str s, rest)
    | '[' :: rest =>
      if depth = 0 then .error .tooDeep
      else
        match skipSpace rest with
        | ']' :: rest => .ok (.arr [], rest)
        | rest => do
          let (items, rest) ← readItems fuel (depth - 1) rest
          return (.arr items, rest)
    | '\x7b' :: rest =>
      if depth = 0 then .error .tooDeep
      else
        match skipSpace rest with
        | '\x7d' :: rest => .ok (.obj [], rest)
        | rest => do
          let (members, rest) ← readMembers fuel (depth - 1) [] rest
          return (.obj members, rest)
    | cs => readScalar cs

/-- The items of an array up to its closing bracket. -/
def readItems (fuel depth : Nat) (cs : Chars) : Except JsonFault (List Json × Chars) :=
  match fuel with
  | 0 => .error .tooDeep
  | fuel + 1 => do
    let (item, rest) ← readValue fuel depth cs
    match skipSpace rest with
    | ']' :: rest => return ([item], rest)
    | ',' :: rest =>
      let (items, rest) ← readItems fuel depth (skipSpace rest)
      return (item :: items, rest)
    | rest => fail .expectingComma rest

/-- The members of an object up to its closing brace; a repeated name replaces its value. -/
def readMembers (fuel depth : Nat) (done : Members Json) (cs : Chars) :
    Except JsonFault (Members Json × Chars) :=
  match fuel with
  | 0 => .error .tooDeep
  | fuel + 1 =>
    match cs with
    | '"' :: rest => do
      let (name, rest) ← readString cs [] rest
      match skipSpace rest with
      | ':' :: rest =>
        let (value, rest) ← readValue fuel depth (skipSpace rest)
        match skipSpace rest with
        | '\x7d' :: rest => return (done.put name value, rest)
        | ',' :: rest => readMembers fuel depth (done.put name value) (skipSpace rest)
        | rest => fail .expectingComma rest
      | rest => fail .expectingColon rest
    | cs => fail .expectingName cs

end

/-- A whole text: one value with blanks around it. -/
def readText (depth : Nat) (cs : Chars) : Except JsonFault Json := do
  if cs.head? = some '\uFEFF' then fail .byteOrderMark cs
  let (value, rest) ← readValue (2 * cs.length + 2) depth (skipSpace cs)
  match skipSpace rest with
  | [] => return value
  | rest => fail .extraData rest

end JsonReader

/--
How deep the containers of a JSON document may nest. This fixed number stands for the stack of a
reader that calls itself for each container, and so ends near it, but not always at the same depth.
-/
def jsonDepthLimit : Nat := 990

def Json.readNested (depth : Nat) (text : String) : Except JsonFault Json :=
  JsonReader.readText depth text.toList

def Json.read (text : String) : Except JsonFault Json := Json.readNested jsonDepthLimit text

end JsonSchema

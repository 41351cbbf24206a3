import JsonSchema.Text.CodeRanges

/-!
# Dates and times

The digits of a date or a time may be those of any script. A date has to exist in the calendar,
and the sixtieth second of a minute may be a leap second.
-/

namespace JsonSchema.Moment

abbrev Chars := List Char

/-- Exactly `count` digits as a number, and what follows them. -/
def digits? (count : Nat) (cs : Chars) : Option (Nat × Chars) :=
  if (cs.take count).length < count then none
  else (decimalNumeral? (cs.take count)).map fun n => (n, cs.drop count)

def after? (c : Char) : Chars → Option Chars
  | d :: rest => if d == c then some rest else none
  | [] => none

/-! ## Dates -/

def isLeapYear (year : Nat) : Bool := year % 4 == 0 && (year % 100 != 0 || year % 400 == 0)

def daysIn (year month : Nat) : Nat :=
  match month with
  | 2 => if isLeapYear year then 29 else 28
  | 4 | 6 | 9 | 11 => 30
  | _ => 31

/-- Whether the calendar has this day; years count from one. -/
def isDay (year month day : Nat) : Bool :=
  decide (1 ≤ year) && decide (1 ≤ month) && decide (month ≤ 12) && decide (1 ≤ day) &&
    decide (day ≤ daysIn year month)

/-- A year of four digits, a month and a day of two. -/
def readDate? (cs : Chars) : Option (Nat × Nat × Nat) := do
  let (year, cs) ← digits? 4 cs
  let (month, cs) ← digits? 2 (← after? '-' cs)
  let (day, cs) ← digits? 2 (← after? '-' cs)
  if cs.isEmpty then some (year, month, day) else none

def isDate (cs : Chars) : Bool :=
  match readDate? cs with
  | some (year, month, day) => isDay year month day
  | none => false

/-! ## Times -/

def readHours? (cs : Chars) : Option (Nat × Nat × Chars) := do
  let (hours, cs) ← digits? 2 cs
  let (minutes, cs) ← digits? 2 (← after? ':' cs)
  return (hours, minutes, cs)

/-- What follows a fraction of a second, which has a digit at least. -/
def skipFraction? : Chars → Option Chars
  | '.' :: c :: rest => if isDecimalDigit c then some (rest.dropWhile isDecimalDigit) else none
  | '.' :: [] => none
  | cs => some cs

def isOffset (cs : Chars) : Bool :=
  match cs with
  | ['Z'] | ['z'] => true
  | c :: rest =>
    (c == '+' || c == '-') &&
      match readHours? rest with
      | some (hours, minutes, []) => decide (hours ≤ 23) && decide (minutes ≤ 59)
      | _ => false
  | [] => false

def isTime (cs : Chars) : Bool :=
  match readHours? cs with
  | none => false
  | some (hours, minutes, cs) =>
    match (after? ':' cs).bind (digits? 2) with
    | none => false
    | some (seconds, cs) =>
      decide (hours ≤ 23) && decide (minutes ≤ 59) && decide (seconds ≤ 60) &&
        match skipFraction? cs with
        | some cs => isOffset cs
        | none => false

/-- A date and a time with a letter T or a blank between them. -/
def isDateTime (cs : Chars) : Bool :=
  match cs.drop 10 with
  | c :: rest => (c == 'T' || c == 't' || c == ' ') && isDate (cs.take 10) && isTime rest
  | [] => false

end JsonSchema.Moment

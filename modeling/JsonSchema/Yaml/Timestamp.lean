import JsonSchema.Format.Date
import JsonSchema.Json.Read
import JsonSchema.Yaml.Fault

/-!
# Timestamps

A timestamp is a date, and a time of the day may follow it with a fraction of a second and an
offset. All digits are ASCII.
-/

namespace JsonSchema.Yaml

structure ZoneOffset where
  negative : Bool
  minutes : Nat
deriving DecidableEq, Repr

structure TimeOfDay where
  hour : Nat
  minute : Nat
  second : Nat
  offset : Option ZoneOffset
deriving DecidableEq, Repr

structure Timestamp where
  year : Nat
  month : Nat
  day : Nat
  time : Option TimeOfDay
deriving DecidableEq, Repr

namespace Timestamp

/-- Between `least` and `most` digits as a number, and what follows them. -/
def digits? (least most : Nat) (cs : List Char) : Option (Nat × List Char) :=
  let digits := (cs.take most).takeWhile Char.isDigit
  if digits.length < least then none
  else some (JsonReader.digitsValue digits, cs.drop digits.length)

def after? (c : Char) : List Char → Option (List Char)
  | d :: rest => if d == c then some rest else none
  | [] => none

def isBlank (c : Char) : Bool := c == ' ' || c == '\t'

/-- What stands behind the letter or the blanks in front of a time. -/
def timeStart? : List Char → Option (List Char)
  | 'T' :: rest | 't' :: rest => some rest
  | c :: rest => if isBlank c then some (rest.dropWhile isBlank) else none
  | [] => none

/-- The minutes of an offset, which may be missing. -/
def offsetMinutes? (cs : List Char) : Option (Nat × List Char) :=
  if cs.isEmpty then some (0, []) else (after? ':' cs).bind (digits? 2 2)

/-- An offset that takes all of the text, behind blanks; universal time is the offset of `Z`. -/
def offset? (cs : List Char) : Option (Option ZoneOffset) :=
  match cs, cs.dropWhile isBlank with
  | [], _ => some none
  | _, ['Z'] => some (some ⟨false, 0⟩)
  | _, sign :: rest =>
    if sign == '+' || sign == '-' then do
      let (hours, rest) ← digits? 1 2 rest
      let (minutes, rest) ← offsetMinutes? rest
      if rest.isEmpty then some (some ⟨sign == '-', 60 * hours + minutes⟩) else none
    else none
  | _, [] => none

def dropFraction : List Char → List Char
  | '.' :: rest => rest.dropWhile Char.isDigit
  | cs => cs

/-- A time of the day that takes all of the text; no text is no time. -/
def time? (cs : List Char) : Option (Option TimeOfDay) :=
  if cs.isEmpty then some none
  else do
    let (hour, cs) ← digits? 1 2 (← timeStart? cs)
    let (minute, cs) ← digits? 2 2 (← after? ':' cs)
    let (second, cs) ← digits? 2 2 (← after? ':' cs)
    return some { hour, minute, second, offset := ← offset? (dropFraction cs) }

/-- Reads a timestamp; a line break at the very end does not count. -/
def ofText? (text : String) : Option Timestamp := do
  let cs := text.toList
  let cs := if cs.getLast? == some '\n' then cs.dropLast else cs
  let (year, cs) ← digits? 4 4 cs
  let (month, cs) ← digits? 1 2 (← after? '-' cs)
  let (day, cs) ← digits? 1 2 (← after? '-' cs)
  return { year, month, day, time := ← time? cs }

/-! ## The calendar -/

def daySeconds : Int := 86400

def checkOffset (offset : ZoneOffset) : Except CalendarFault Unit :=
  if 60 * offset.minutes < daySeconds then .ok ()
  else
    let seconds : Int := if offset.negative then -(60 * offset.minutes) else 60 * offset.minutes
    .error (.offset (seconds / daySeconds) (seconds % daySeconds).toNat)

def checkDate (t : Timestamp) : Except CalendarFault Unit :=
  if t.year = 0 then .error (.year t.year)
  else if t.month = 0 ∨ 12 < t.month then .error .month
  else if t.day = 0 ∨ Moment.daysIn t.year t.month < t.day then .error .day
  else .ok ()

def checkTime (t : TimeOfDay) : Except CalendarFault Unit :=
  if 24 ≤ t.hour then .error .hour
  else if 60 ≤ t.minute then .error .minute
  else if 60 ≤ t.second then .error .second
  else .ok ()

def check (t : Timestamp) : Except CalendarFault Unit := do
  match t.time with
  | none => t.checkDate
  | some time =>
    if let some offset := time.offset then checkOffset offset
    t.checkDate
    checkTime time

end Timestamp

end JsonSchema.Yaml

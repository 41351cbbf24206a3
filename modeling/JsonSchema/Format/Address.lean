import JsonSchema.Json.Read
import JsonSchema.Text.Basic

/-!
# Internet addresses

A dotted address has four octets in decimal. A colon address has eight groups of up to four
hexadecimal digits; one run of zero groups may be left out, and a dotted address may stand for
the last two groups.
-/

namespace JsonSchema.Address

abbrev Chars := List Char

/-! ## Dotted addresses -/

/-- A decimal number up to 255 without leading zeros. -/
def isOctet (cs : Chars) : Bool :=
  !cs.isEmpty && cs.all JsonReader.isAsciiDigit && decide (cs.length ≤ 3) &&
    (cs == ['0'] || cs.head? != some '0') && decide (JsonReader.digitsValue cs ≤ 255)

def isDotted (cs : Chars) : Bool :=
  let octets := splitChars '.' cs
  octets.length == 4 && octets.all isOctet

/-! ## Colon addresses -/

def isGroup (cs : Chars) : Bool :=
  !cs.isEmpty && decide (cs.length ≤ 4) && cs.all fun c => (JsonReader.hexValue? c).isSome

/-- The groups of an address, with a dotted address at the end counted as two groups of zeros. -/
def groups? (cs : Chars) : Option (List Chars) :=
  let parts := splitChars ':' cs
  if parts.length < 3 then none
  else
    match parts.getLast? with
    | some last =>
      if last.contains '.' then
        if isDotted last && !last.contains '/' then some (parts.dropLast ++ [['0'], ['0']])
        else none
      else some parts
    | none => none

/-- The part of an address on one side of the gap, where an empty group may stand at the end. -/
def sideGroups? (parts : List Chars) : Option (List Chars) :=
  if parts == [[]] then some [] else if parts.all isGroup then some parts else none

def groupCount : Nat := 8

/-- Whether the groups, some of them empty around a gap, make an address. -/
def areGroups (parts : List Chars) : Bool :=
  let inner := (parts.drop 1).dropLast
  match inner.filter List.isEmpty with
  | [] => parts.length == groupCount && parts.all isGroup
  | [_] =>
    let before := parts.take 1 ++ inner.takeWhile (!·.isEmpty)
    let behind := (inner.dropWhile (!·.isEmpty)).drop 1 ++ parts.drop (parts.length - 1)
    match sideGroups? before, sideGroups? behind with
    | some high, some low => decide (high.length + low.length < groupCount)
    | _, _ => false
  | _ => false

/-- An address may carry a zone after a percent sign. -/
def isColon (cs : Chars) : Bool :=
  if cs.contains '/' then false
  else
    let address := cs.takeWhile (· != '%')
    let zoneFits := match cutChars? '%' cs with
      | none => true
      | some (_, zone) => !zone.isEmpty && !zone.contains '%'
    zoneFits &&
      match groups? address with
      | some parts => decide (parts.length ≤ groupCount + 1) && areGroups parts
      | none => false

end JsonSchema.Address

import JsonSchema.Yaml.Fault

/-!
# Base 64

Characters outside the alphabet say nothing. The text ends where padding fills a group of four, and
its end needs no padding when the last group is full.
-/

namespace JsonSchema.Yaml

namespace Base64

def isDigit (c : Char) : Bool := c.isAlpha || c.isDigit || c == '+' || c == '/'

/-- What is known about a text: its digits, and the padding behind the last of them. -/
structure Progress where
  digits : Nat
  padding : Nat

/-- Reads characters up to a full group with padding in it. -/
def check (p : Progress) : List Char → Except Base64Fault Unit
  | [] =>
    match p.digits % 4 with
    | 0 => .ok ()
    | 1 => .error (.length p.digits)
    | _ => .error .padding
  | c :: rest =>
    if c == '=' then
      let group := p.digits % 4
      if group < 2 then check p rest
      else if 4 ≤ group + p.padding + 1 then .ok ()
      else check { p with padding := p.padding + 1 } rest
    else if isDigit c then check ⟨p.digits + 1, 0⟩ rest
    else check p rest

end Base64

def firstNonAscii? (cs : List Char) : Option NonAsciiRun :=
  let isAscii := fun c : Char => decide (c.toNat < 128)
  match cs.dropWhile isAscii with
  | [] => none
  | c :: rest =>
    some ⟨c, (cs.takeWhile isAscii).length, 1 + (rest.takeWhile (!isAscii ·)).length⟩

def checkBinary (text : String) : Except YamlProblem Unit :=
  match firstNonAscii? text.toList with
  | some run => .error (.notAscii run)
  | none => (Base64.check ⟨0, 0⟩ text.toList).mapError .badBase64

end JsonSchema.Yaml

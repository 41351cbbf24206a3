/-!
# Texts

Cutting a text at a character, and the places in a text.
-/

namespace JsonSchema

/-! ## Cutting -/

/-- The parts between the occurrences of `mark`; there is always at least one part. -/
def splitChars (mark : Char) : List Char → List (List Char)
  | [] => [[]]
  | c :: rest =>
    match splitChars mark rest with
    | [] => [[c]]
    | part :: parts => if c == mark then [] :: part :: parts else (c :: part) :: parts

def splitText (mark : Char) (s : String) : List String :=
  (splitChars mark s.toList).map String.ofList

/-- What stands before and after the first `mark`, if there is one. -/
def cutChars? (mark : Char) (cs : List Char) : Option (List Char × List Char) :=
  match cs.dropWhile (· != mark) with
  | [] => none
  | _ :: rest => some (cs.takeWhile (· != mark), rest)

/-- What stands before and after the last `mark`, if there is one. -/
def cutLastChars? (mark : Char) (cs : List Char) : Option (List Char × List Char) :=
  (cutChars? mark cs.reverse).map fun (after, before) => (before.reverse, after.reverse)

def startsWithChars (start cs : List Char) : Bool := start.isPrefixOf cs

def endsWithText (ending s : String) : Bool := ending.toList.isSuffixOf s.toList

/-- ASCII capitals become small letters; every other character stays. -/
def lowerAscii (s : String) : String := String.ofList (s.toList.map Char.toLower)

def isAsciiText (cs : List Char) : Bool := cs.all fun c => decide (c.toNat < 128)

/-! ## Places -/

/-- A line and a column, both counted from one. -/
structure Place where
  line : Nat
  column : Nat
deriving DecidableEq, Repr, Inhabited

namespace Place

def step (place : Place) (c : Char) : Place :=
  if c == '\n' then ⟨place.line + 1, 1⟩ else ⟨place.line, place.column + 1⟩

/-- The place after these characters, where only a line feed ends a line. -/
def after (cs : List Char) : Place := cs.foldl step ⟨1, 1⟩

end Place

end JsonSchema

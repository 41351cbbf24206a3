/-!
# Regular expressions

The tree of a regular expression. Characters are kept as code points, because an escape may name
a code point that no character has.
-/

namespace JsonSchema

namespace Regex

/-! ## Flags -/

/-- The letters that switch something on or off inside an expression. -/
inductive Flag where
  | ignoreCase | locale | multiline | dotAll | verbose | ascii | template | unicode
deriving DecidableEq, Repr

namespace Flag

def ofLetter? : Char → Option Flag
  | 'i' => some .ignoreCase
  | 'L' => some .locale
  | 'm' => some .multiline
  | 's' => some .dotAll
  | 'x' => some .verbose
  | 'a' => some .ascii
  | 't' => some .template
  | 'u' => some .unicode
  | _ => none

/-- The flags that choose a set of characters; two of them exclude each other. -/
def isCharacterSet : Flag → Bool
  | .ascii | .locale | .unicode => true
  | _ => false

/-- The flags that only a whole expression can have. -/
def isGlobal (flag : Flag) : Bool := flag == .template

end Flag

abbrev Flags := List Flag

namespace Flags

def has (flags : Flags) (flag : Flag) : Bool := flags.contains flag

/-- The flags inside a group that adds some and removes others. -/
def combine (flags added removed : Flags) : Flags :=
  let kept := if added.any Flag.isCharacterSet then flags.filter (!·.isCharacterSet) else flags
  (kept ++ added).filter (!removed.contains ·)

end Flags

/-! ## Parts of an expression -/

inductive Category where
  | digit | space | word
deriving DecidableEq, Repr

/-- A member of a set of characters. -/
inductive SetItem where
  | char (code : Nat)
  | range (low high : Nat)
  | category (category : Category) (negated : Bool)
deriving DecidableEq, Repr

/-- A condition on a place that takes up no character. -/
inductive Anchor where
  | lineStart | lineEnd | textStart | textEnd | boundary | noBoundary
deriving DecidableEq, Repr

/-- How a repetition chooses the number of its rounds. -/
inductive Greed where
  /-- As many as possible, fewer where the rest needs it. -/
  | greedy
  /-- As few as possible, more where the rest needs it. -/
  | lazy
  /-- As many as possible and never fewer. -/
  | possessive
deriving DecidableEq, Repr

end Regex

open Regex in
/-- A regular expression. Groups count from one. -/
inductive Regex where
  | char (code : Nat)
  | otherChar (code : Nat)
  | any
  | set (negated : Bool) (items : List SetItem)
  | anchor (anchor : Anchor)
  | sequence (parts : List Regex)
  | choice (branches : List Regex)
  | repetition (greed : Greed) (least : Nat) (most : Option Nat) (body : Regex)
  | group (number : Option Nat) (added removed : Flags) (body : Regex)
  | atomic (body : Regex)
  | look (ahead negated : Bool) (body : Regex)
  | reference (group : Nat)
  | condition (group : Nat) (yes : Regex) (no : Option Regex)
deriving Repr, Inhabited

namespace Regex

/-! ## Widths -/

/-- The least and the greatest number of characters that an expression matches. -/
structure Width where
  least : Nat
  greatest : Nat
deriving DecidableEq, Repr

/-- Widths are counted up to this size. -/
def maxWidth : Nat := Nat.pow 2 64

namespace Width

def add (a b : Width) : Width := ⟨a.least + b.least, a.greatest + b.greatest⟩

def either (a b : Width) : Width := ⟨min a.least b.least, max a.greatest b.greatest⟩

def clamp (a : Width) : Width := ⟨min a.least maxWidth, min a.greatest maxWidth⟩

def isFixed (a : Width) : Bool := a.least == a.greatest

def rounds (a : Width) (least : Nat) (most : Option Nat) : Width :=
  let greatest := match most with
    | some n => a.greatest * n
    | none => if a.greatest = 0 then 0 else maxWidth
  ⟨a.least * least, greatest⟩

end Width

mutual

/-- The width of an expression, given the widths of the groups that it refers to. -/
def width (groups : Nat → Width) : Regex → Width
  | .char _ | .otherChar _ | .any | .set _ _ => ⟨1, 1⟩
  | .anchor _ | .look _ _ _ => ⟨0, 0⟩
  | .sequence parts => (widthSum groups parts).clamp
  | .choice branches => widthOfAny groups branches
  | .repetition _ least most body => ((width groups body).rounds least most).clamp
  | .group _ _ _ body => width groups body
  | .atomic body => width groups body
  | .reference number => groups number
  | .condition _ yes none => ⟨0, (width groups yes).greatest⟩
  | .condition _ yes (some no) => (width groups yes).either (width groups no)

def widthSum (groups : Nat → Width) : List Regex → Width
  | [] => ⟨0, 0⟩
  | part :: parts => (width groups part).add (widthSum groups parts)

def widthOfAny (groups : Nat → Width) : List Regex → Width
  | [] => ⟨0, 0⟩
  | [branch] => width groups branch
  | branch :: branches => (width groups branch).either (widthOfAny groups branches)

end

end Regex

end JsonSchema

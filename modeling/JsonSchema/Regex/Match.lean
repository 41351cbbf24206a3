import JsonSchema.Regex.Character
import JsonSchema.Regex.Read

/-!
# Matching

A matcher takes a state and what has to match after it, and gives the state of the first way to
match both. Parts are tried in the order that the expression prescribes.
-/

namespace JsonSchema

namespace Regex

/-! ## States -/

/-- A place in the text, and where each group started and ended last. -/
structure MatchState where
  position : Nat
  starts : List (Nat × Nat)
  ends : List (Nat × Nat)
deriving Repr

/-- The text that a group matched; a group that has not ended behind its start matched none. -/
def MatchState.span? (s : MatchState) (group : Nat) : Option (Nat × Nat) := do
  let start ← s.starts.lookup group
  let stop ← s.ends.lookup group
  if start ≤ stop then some (start, stop) else none

abbrev Text := Array Char

abbrev Rest := MatchState → Option MatchState

abbrev Matcher := MatchState → Rest → Option MatchState

/-! ## Characters and places -/

def charAt (text : Text) (position : Nat) : Option Char := text[position]?

def matchChar (text : Text) (test : Char → Bool) : Matcher := fun s rest =>
  match charAt text s.position with
  | some c => if test c then rest { s with position := s.position + 1 } else none
  | none => none

def isWordAt (text : Text) (ascii : Bool) (position : Nat) : Bool :=
  match charAt text position with
  | some c => Category.word.holds ascii c
  | none => false

def isBoundary (text : Text) (ascii : Bool) (position : Nat) : Bool :=
  (decide (0 < position) && isWordAt text ascii (position - 1)) != isWordAt text ascii position

def isLineEnd (text : Text) (position : Nat) : Bool := charAt text position == some '\n'

/-- Whether a place meets a condition. An empty text has neither boundaries nor other places. -/
def anchorHolds (text : Text) (flags : Flags) (anchor : Anchor) (position : Nat) : Bool :=
  let atEnd := position == text.size
  match anchor with
  | .textStart => position == 0
  | .textEnd => atEnd
  | .lineStart =>
    position == 0 || (flags.has .multiline && isLineEnd text (position - 1))
  | .lineEnd =>
    atEnd || (isLineEnd text position &&
      (flags.has .multiline || position + 1 == text.size))
  | .boundary => text.size != 0 && isBoundary text (flags.has .ascii) position
  | .noBoundary => text.size != 0 && !isBoundary text (flags.has .ascii) position

def sameAt (text : Text) (folding : Folding) : (count first second : Nat) → Bool
  | 0, _, _ => true
  | count + 1, first, second =>
    match charAt text first, charAt text second with
    | some a, some b =>
      folding.lower a.toNat == folding.lower b.toNat &&
        sameAt text folding count (first + 1) (second + 1)
    | _, _ => false

def matchReference (text : Text) (folding : Folding) (group : Nat) : Matcher := fun s rest =>
  match s.span? group with
  | none => none
  | some (start, stop) =>
    if sameAt text folding (stop - start) start s.position then
      rest { s with position := s.position + (stop - start) }
    else none

/-! ## Repetitions -/

def isBelow (count : Nat) : Option Nat → Bool
  | none => true
  | some most => decide (count < most)

/--
As many rounds as possible. After the least number of rounds, a round that starts where the one
before it started is not tried.
-/
def repeatGreedy (body : Matcher) (least : Nat) (most : Option Nat) :
    (fuel count : Nat) → (last : Option Nat) → Matcher
  | 0, _, _ => fun _ _ => none
  | fuel + 1, count, last => fun s rest =>
    if count < least then
      body s fun s' => repeatGreedy body least most fuel (count + 1) last s' rest
    else
      let more :=
        if isBelow count most && last != some s.position then
          body s fun s' => repeatGreedy body least most fuel (count + 1) (some s.position) s' rest
        else none
      match more with
      | some found => some found
      | none => rest s

/-- As few rounds as possible. -/
def repeatLazy (body : Matcher) (least : Nat) (most : Option Nat) :
    (fuel count : Nat) → (last : Option Nat) → Matcher
  | 0, _, _ => fun _ _ => none
  | fuel + 1, count, last => fun s rest =>
    if count < least then
      body s fun s' => repeatLazy body least most fuel (count + 1) last s' rest
    else
      match rest s with
      | some found => some found
      | none =>
        if isBelow count most && last != some s.position then
          body s fun s' => repeatLazy body least most fuel (count + 1) (some s.position) s' rest
        else none

/-- As many rounds as possible, each one matched in its first way. -/
def repeatPossessive (body : Matcher) (least : Nat) (most : Option Nat) :
    (fuel count : Nat) → (last : Option Nat) → MatchState → Option MatchState
  | 0, _, _, s => some s
  | fuel + 1, count, last, s =>
    if count < least then
      match body s some with
      | some s' => repeatPossessive body least most fuel (count + 1) last s'
      | none => none
    else if isBelow count most && last != some s.position then
      match body s some with
      | some s' => repeatPossessive body least most fuel (count + 1) (some s.position) s'
      | none => some s
    else some s

/-- How many characters from a place on pass a test, up to `limit`. -/
def runLength (text : Text) (test : Char → Bool) : (limit position : Nat) → Nat
  | 0, _ => 0
  | limit + 1, position =>
    match charAt text position with
    | some c => if test c then runLength text test limit (position + 1) + 1 else 0
    | none => 0

/-- Matches the rest behind `count + least` characters, or behind fewer, down to `least`. -/
def tryFewer (least : Nat) (s : MatchState) (rest : Rest) : (count : Nat) → Option MatchState
  | 0 => rest { s with position := s.position + least }
  | count + 1 =>
    match rest { s with position := s.position + least + (count + 1) } with
    | some found => some found
    | none => tryFewer least s rest count

/-- As many single characters as possible. -/
def repeatChar (text : Text) (test : Char → Bool) (least : Nat) (most : Option Nat) : Matcher :=
  fun s rest =>
    let room := text.size - s.position
    let length := runLength text test (min room (most.getD room)) s.position
    if length < least then none else tryFewer least s rest (length - least)

/-! ## Expressions -/

def charTest? (flags : Flags) : Regex → Option (Char → Bool)
  | .char code => some (charMatches flags.folding code)
  | .otherChar code => some fun c => !charMatches flags.folding code c
  | .any => some fun c => flags.has .dotAll || c != '\n'
  | .set negated items => some (setMatches flags.folding (flags.has .ascii) negated items)
  | _ => none

structure Context where
  text : Text
  groupWidth : Nat → Width

mutual

/-- The matcher of an expression. -/
def matcher (context : Context) (flags : Flags) : Regex → Matcher
  | .char code => matchChar context.text (charMatches flags.folding code)
  | .otherChar code => matchChar context.text fun c => !charMatches flags.folding code c
  | .any => matchChar context.text fun c => flags.has .dotAll || c != '\n'
  | .set negated items =>
    matchChar context.text (setMatches flags.folding (flags.has .ascii) negated items)
  | .anchor place => fun s rest =>
    if anchorHolds context.text flags place s.position then rest s else none
  | .sequence parts => matchAll context flags parts
  | .choice branches => matchAny context flags branches
  | .repetition greed least most body => fun s rest =>
    let fuel := least + context.text.size + 2
    match greed, charTest? flags body with
    | .greedy, some test => repeatChar context.text test least most s rest
    | .greedy, none => repeatGreedy (matcher context flags body) least most fuel 0 none s rest
    | .lazy, _ => repeatLazy (matcher context flags body) least most fuel 0 none s rest
    | .possessive, _ =>
      match repeatPossessive (matcher context flags body) least most fuel 0 none s with
      | some s' => rest s'
      | none => none
  | .group none added removed body => matcher context (flags.combine added removed) body
  | .group (some number) added removed body => fun s rest =>
    matcher context (flags.combine added removed) body
      { s with starts := (number, s.position) :: s.starts }
      fun s' => rest { s' with ends := (number, s'.position) :: s'.ends }
  | .atomic body => fun s rest =>
    match matcher context flags body s some with
    | some s' => rest s'
    | none => none
  | .look ahead negated body => fun s rest =>
    let back := if ahead then 0 else (body.width context.groupWidth).least
    let found :=
      if s.position < back then none
      else matcher context flags body { s with position := s.position - back } some
    match found, negated with
    | some s', false => rest { s' with position := s.position }
    | none, true => rest s
    | _, _ => none
  | .reference number => matchReference context.text flags.folding number
  | .condition number yes none => fun s rest =>
    if (s.span? number).isSome then matcher context flags yes s rest else rest s
  | .condition number yes (some no) => fun s rest =>
    if (s.span? number).isSome then matcher context flags yes s rest
    else matcher context flags no s rest

def matchAll (context : Context) (flags : Flags) : List Regex → Matcher
  | [] => fun s rest => rest s
  | part :: parts => fun s rest =>
    matcher context flags part s fun s' => matchAll context flags parts s' rest

def matchAny (context : Context) (flags : Flags) : List Regex → Matcher
  | [] => fun _ _ => none
  | branch :: branches => fun s rest =>
    match matcher context flags branch s rest with
    | some found => some found
    | none => matchAny context flags branches s rest

end

end Regex

namespace Pattern

def matchesAt (pattern : Pattern) (text : Regex.Text) (position : Nat) : Bool :=
  (Regex.matcher ⟨text, pattern.groupWidth⟩ pattern.flags pattern.root ⟨position, [], []⟩
    some).isSome

/-- Whether the expression matches anywhere in the text. -/
def isIn (pattern : Pattern) (text : String) : Bool :=
  let chars := text.toList.toArray
  (List.range (chars.size + 1)).any (pattern.matchesAt chars)

end Pattern

end JsonSchema

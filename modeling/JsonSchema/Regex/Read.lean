import JsonSchema.Number.Numeral
import JsonSchema.Regex.Basic
import JsonSchema.Regex.CharacterName
import JsonSchema.Regex.Fault
import JsonSchema.Text.Identifier
import JsonSchema.Text.Word

/-!
# Reading a regular expression

The reader goes over the expression token by token, where a backslash and the character after it
are one token. It keeps what the rest of the expression may refer to: flags, names and groups.
-/

namespace JsonSchema

namespace RegexReader

open Regex (Flag Flags Category SetItem Anchor Greed Width Problem Fault namedCode?)

/-! ## The state of reading -/

structure Reader where
  rest : List Char
  position : Nat
  flags : Flags
  /-- The named groups. -/
  names : List (String × Nat)
  /-- The widths of the groups from one on; an open group has none yet. -/
  widths : List (Option Width)
  /-- Inside a lookbehind, the number of the first group that starts in it. -/
  lookbehindStart : Option Nat
  /-- The groups that conditions ask for, each with its first place. -/
  conditions : List (Nat × Nat)

abbrev ReadM := StateT Reader (Except Fault)

/-- The number of groups with the whole expression counted as one. -/
def Reader.groupCount (r : Reader) : Nat := r.widths.length + 1

def Reader.isClosed (r : Reader) (group : Nat) : Bool :=
  match r.widths[group - 1]? with
  | some width => width.isSome && group != 0
  | none => false

def Reader.widthOf (r : Reader) (group : Nat) : Width :=
  match r.widths[group - 1]? with
  | some (some width) => width
  | _ => ⟨0, 0⟩

/-! ## Tokens -/

structure Token where
  escaped : Bool
  char : Char
deriving DecidableEq

namespace Token

def text (t : Token) : String := if t.escaped then "\\" ++ t.char.toString else t.char.toString

def length (t : Token) : Nat := if t.escaped then 2 else 1

/-- Whether the token is this character by itself. -/
def is (t : Token) (c : Char) : Bool := !t.escaped && t.char == c

def isOneOf (t : Token) (cs : String) : Bool := !t.escaped && cs.toList.contains t.char

def isLetter (t : Token) : Bool := !t.escaped && JsonSchema.isLetter t.char

end Token

/-- Fails `back` characters before the present place. -/
def failBack {α : Type} (problem : Problem) (back : Nat) : ReadM α := do
  throw (.bad problem (some ((← get).position - back)))

def fail {α : Type} (problem : Problem) : ReadM α := failBack problem 0

def failAt {α : Type} (problem : Problem) (position : Nat) : ReadM α :=
  throw (.bad problem (some position))

def tokenOf : List Char → Option Token
  | [] => none
  | '\\' :: c :: _ => some ⟨true, c⟩
  | c :: _ => some ⟨false, c⟩

def peek : ReadM (Option Token) := do return tokenOf (← get).rest

/-- Moves behind the present token. A single backslash at the end is no token. -/
def advance : ReadM Unit := do
  let r ← get
  let length := ((tokenOf r.rest).map Token.length).getD 0
  let rest := r.rest.drop length
  if rest == ['\\'] then throw (.bad .danglingEscape (some (r.position + length)))
  set { r with rest, position := r.position + length }

def next : ReadM (Option Token) := do
  let token ← peek
  advance
  return token

def accept (c : Char) : ReadM Bool := do
  match ← peek with
  | some token =>
    if token.is c then
      advance
      return true
    else return false
  | none => return false

def nextWhile (isWanted : Char → Bool) : Nat → ReadM (List Char)
  | 0 => return []
  | count + 1 => do
    match ← peek with
    | some token =>
      if !token.escaped && isWanted token.char then
        advance
        return token.char :: (← nextWhile isWanted count)
      else return []
    | none => return []

/-- The text up to a closing character, which is read too; `fuel` is the length of the rest. -/
def nextUntil (closing : Char) (what : String) : (fuel : Nat) → (done : String) → ReadM String
  | 0, done => failBack (.missing what) done.length
  | fuel + 1, done => do
    match ← next with
    | none =>
      if done == "" then fail (.missing what)
      else failBack (.unterminatedName closing.toString) done.length
    | some token =>
      if token.is closing then
        if done == "" then failBack (.missing what) 1 else return done
      else nextUntil closing what fuel (done ++ token.text)

def nameUntil (closing : Char) (what : String) : ReadM String := do
  nextUntil closing what ((← get).rest.length + 1) ""

/-! ## Digits -/

def isDigit (c : Char) : Bool := JsonReader.isAsciiDigit c

def isOctal (c : Char) : Bool := decide ('0' ≤ c) && decide (c ≤ '7')

def isHex (c : Char) : Bool := (JsonReader.hexValue? c).isSome

def valueIn (base : Nat) (cs : List Char) : Nat :=
  cs.foldl (fun n c => base * n + (JsonReader.hexValue? c).getD 0) 0

/-! ## Escapes -/

/-- The letters that stand for a control character; `b` is one in a set only. -/
def controlEscape? : Char → Option Nat
  | 'a' => some 7
  | 'b' => some 8
  | 'f' => some 12
  | 'n' => some 10
  | 'r' => some 13
  | 't' => some 9
  | 'v' => some 11
  | '\\' => some 92
  | _ => none

def categoryEscape? : Char → Option SetItem
  | 'd' => some (.category .digit false)
  | 'D' => some (.category .digit true)
  | 's' => some (.category .space false)
  | 'S' => some (.category .space true)
  | 'w' => some (.category .word false)
  | 'W' => some (.category .word true)
  | _ => none

def anchorEscape? : Char → Option Anchor
  | 'A' => some .textStart
  | 'b' => some .boundary
  | 'B' => some .noBoundary
  | 'Z' => some .textEnd
  | _ => none

def readHexCode (letter : Char) (digits : Nat) : ReadM Nat := do
  let cs ← nextWhile isHex digits
  let text := String.ofList ('\\' :: letter :: cs)
  if cs.length ≠ digits then failBack (.incompleteEscape text) text.length
  let code := valueIn 16 cs
  if 0x10FFFF < code then failBack (.badEscape text) text.length
  return code

def readNamedCode : ReadM Nat := do
  if !(← accept '\x7b') then fail (.missing "\x7b")
  let name ← nameUntil '\x7d' "character name"
  match namedCode? name with
  | some code => return code
  | none => failBack (.unknownCharacterName name) (name.length + 4)

/-- The code of an escape by number or name, if the letter starts one. -/
def readCode? (letter : Char) : ReadM (Option Nat) := do
  match letter with
  | 'x' => return some (← readHexCode 'x' 2)
  | 'u' => return some (← readHexCode 'u' 4)
  | 'U' => return some (← readHexCode 'U' 8)
  | 'N' => return some (← readNamedCode)
  | _ => return none

/-- The largest code of an octal escape. -/
def maxOctal : Nat := 0o377

/-- The code of octal digits, which the escape holds all. -/
def octalCode (digits : List Char) : ReadM Nat := do
  let text := String.ofList ('\\' :: digits)
  if maxOctal < valueIn 8 digits then failBack (.octalTooLarge text) text.length
  return valueIn 8 digits

/-- A letter escape without a meaning is refused; any other character stands for itself. -/
def readPlainEscape (c : Char) : ReadM Nat := do
  if c.isAlpha then failBack (.badEscape (String.ofList ['\\', c])) 2
  return c.toNat

/-- An escape in a set, after its first character. -/
def readSetEscape (c : Char) : ReadM SetItem := do
  if let some code := controlEscape? c then return .char code
  if let some item := categoryEscape? c then return item
  if let some code ← readCode? c then return .char code
  if isOctal c then
    return .char (← octalCode (c :: (← nextWhile isOctal 2)))
  if isDigit c then failBack (.badEscape (String.ofList ['\\', c])) 2
  return .char (← readPlainEscape c)

/-- Inside a lookbehind only closed groups from outside may be referred to. -/
def checkLookbehind (group : Nat) : ReadM Unit := do
  let r ← get
  if let some start := r.lookbehindStart then
    if !r.isClosed group then fail .openGroup
    if start ≤ group then fail .sameLookbehind

/-- A reference to a group by the digits of its number. -/
def readReference (digits : List Char) : ReadM Regex := do
  let group := valueIn 10 digits
  let r ← get
  if r.groupCount ≤ group then failBack (.noSuchGroup group) digits.length
  if !r.isClosed group then failBack .openGroup (digits.length + 1)
  checkLookbehind group
  return .reference group

/-- An escape of digits: an octal code or the number of a group. -/
def readDigitEscape (c : Char) : ReadM Regex := do
  if c == '0' then
    return .char (valueIn 8 (c :: (← nextWhile isOctal 2)))
  match ← nextWhile isDigit 1 with
  | [d] =>
    if isOctal c && isOctal d then
      match ← nextWhile isOctal 1 with
      | [e] => return .char (← octalCode [c, d, e])
      | _ => readReference [c, d]
    else readReference [c, d]
  | _ => readReference [c]

/-- An escape outside of sets, after its first character. -/
def readEscape (c : Char) : ReadM Regex := do
  if let some anchor := anchorEscape? c then return .anchor anchor
  if let some item := categoryEscape? c then return .set false [item]
  if let some code := controlEscape? c then return .char code
  if let some code ← readCode? c then return .char code
  if isDigit c then readDigitEscape c
  else return .char (← readPlainEscape c)

/-! ## Sets -/

def readSetItem (token : Token) : ReadM SetItem :=
  if token.escaped then readSetEscape token.char else return .char token.char.toNat

def rangeOf (low high : Token) (first last : SetItem) : ReadM SetItem := do
  let bad : ReadM SetItem :=
    failBack (.badRange low.text high.text) (low.length + 1 + high.length)
  match first, last with
  | .char a, .char b => if b < a then bad else return .range a b
  | _, _ => bad

/-- The members of a set up to its closing bracket; `start` is the place of the opening one. -/
def readSetItems (start : Nat) : (fuel : Nat) → (done : List SetItem) → ReadM (List SetItem)
  | 0, _ => failAt .unterminatedSet start
  | fuel + 1, done => do
    match ← next with
    | none => failAt .unterminatedSet start
    | some token =>
      if token.is ']' && !done.isEmpty then return done
      let item ← readSetItem token
      if ← accept '-' then
        match ← next with
        | none => failAt .unterminatedSet start
        | some last =>
          if last.is ']' then return done ++ [item, .char 45]
          let range ← rangeOf token last item (← readSetItem last)
          readSetItems start fuel (done ++ [range])
      else readSetItems start fuel (done ++ [item])

/-- A set of a single character is that character. -/
def setOf (negated : Bool) (items : List SetItem) : Regex :=
  match items.eraseDups with
  | [.char code] => if negated then .otherChar code else .char code
  | items => .set negated items

/-- A set after its opening bracket. -/
def readSet : ReadM Regex := do
  let start := (← get).position - 1
  let negated ← accept '^'
  let items ← readSetItems start ((← get).rest.length + 1) []
  return setOf negated items

/-! ## Repetitions -/

structure Rounds where
  least : Nat
  most : Option Nat

/-- Counts of rounds stay below this one. -/
def maxRounds : Nat := Nat.pow 2 32 - 1

/-- A count of rounds in digits; no digits leave it open. -/
def roundCount (digits : List Char) : ReadM (Option Nat) := do
  if digits.isEmpty then return none
  if maxIntegerDigits < digits.length then throw (.tooManyDigits digits.length)
  let n := valueIn 10 digits
  if maxRounds ≤ n then throw .repetitionTooLarge
  return some n

/--
The rounds in braces, after the opening one. Braces that hold anything else stand for
themselves, and nothing is read.
-/
def readBraces : ReadM (Option Rounds) := do
  let r ← get
  if let some token ← peek then
    if token.is '\x7d' then return none
  let low ← nextWhile isDigit r.rest.length
  let high ← if ← accept ',' then nextWhile isDigit r.rest.length else pure low
  if !(← accept '\x7d') then
    set r
    return none
  let least ← roundCount low
  let most ← roundCount high
  if let some n := most then
    if n < least.getD 0 then failAt .leastAboveMost r.position
  return some ⟨least.getD 0, most⟩

/-- The sign behind a repetition: it is lazy, possessive or, without a sign, greedy. -/
def readGreed : ReadM Greed := do
  if ← accept '?' then return .lazy
  if ← accept '+' then return .possessive
  return .greedy

/-- Repeats the last part that was read; `start` is the place of the repetition's sign. -/
def repeatLast (start : Nat) (rounds : Rounds) (done : List Regex) : ReadM (List Regex) := do
  match done with
  | [] | .anchor _ :: _ => failAt .nothingToRepeat start
  | .repetition _ _ _ _ :: _ => failAt .multipleRepeat start
  | part :: before =>
    let greed ← readGreed
    return .repetition greed rounds.least rounds.most part :: before

/-! ## Flags -/

/-- The flags of a group; a group of nothing but flags sets them for the whole expression. -/
inductive GroupFlags where
  | whole
  | inside (added removed : Flags)

def readRemovedFlags : (fuel : Nat) → (token : Option Token) → (what : Problem) → Flags →
    ReadM Flags
  | 0, _, what, _ => fail what
  | fuel + 1, token, what, done => do
    match token with
    | none => fail what
    | some token =>
      match if token.escaped then none else Flag.ofLetter? token.char with
      | none => failBack (if token.isLetter then .unknownFlag else what) token.length
      | some flag =>
        if flag.isCharacterSet then fail .characterSetFlagOff
        let token ← next
        if (token.map (·.is ':')).getD false then return done ++ [flag]
        readRemovedFlags fuel token (.missing ":") (done ++ [flag])

def readAddedFlags : (fuel : Nat) → Flag → Flags → ReadM (Char × Flags)
  | 0, _, _ => fail (.missing "-, : or )")
  | fuel + 1, flag, done => do
    if flag == .locale then fail .localeFlag
    let done := done ++ [flag]
    if flag.isCharacterSet && done.any (fun f => f.isCharacterSet && f != flag) then
      fail .exclusiveFlags
    match ← next with
    | none => fail (.missing "-, : or )")
    | some token =>
      if token.isOneOf ")-:" then return (token.char, done)
      match if token.escaped then none else Flag.ofLetter? token.char with
      | none =>
        failBack (if token.isLetter then .unknownFlag else .missing "-, : or )") token.length
      | some flag => readAddedFlags fuel flag done

/-- The flags that start with this one, or with a minus sign where there is none. -/
def readFlags (flag : Option Flag) : ReadM GroupFlags := do
  let fuel := (← get).rest.length + 1
  let (closing, added) ← match flag with
    | some flag => readAddedFlags fuel flag []
    | none => pure ('-', [])
  if closing == ')' then
    modify fun r => { r with flags := r.flags ++ added }
    return .whole
  if added.any Flag.isGlobal then failBack .globalFlagOn 1
  let removed ←
    if closing == '-' then do readRemovedFlags fuel (← next) .missingFlag [] else pure []
  if removed.any Flag.isGlobal then failBack .globalFlagOff 1
  if added.any removed.contains then failBack .flagOnAndOff 1
  return .inside added removed

/-! ## Groups -/

/-- Checks the name of a group, which ends one character before the present place. -/
def checkGroupName (name : String) : ReadM Unit := do
  if !isIdentifier name.toList then failBack (.badGroupName name) (name.length + 1)

def openGroup (name : Option String) : ReadM Nat := do
  let r ← get
  let group := r.groupCount
  if let some name := name then
    if let some earlier := r.names.lookup name then
      failBack (.repeatedGroupName name group earlier) (name.length + 1)
  set { r with
    widths := r.widths ++ [none]
    names := r.names ++ (name.map fun name => (name, group)).toList }
  return group

def closeGroup (group : Nat) (body : Regex) : ReadM Unit :=
  modify fun r => { r with widths := r.widths.set (group - 1) (some (body.width r.widthOf)) }

def readNamedReference : ReadM Regex := do
  let name ← nameUntil ')' "group name"
  checkGroupName name
  let r ← get
  match r.names.lookup name with
  | none => failBack (.unknownGroupName name) (name.length + 1)
  | some group =>
    if !r.isClosed group then failBack .openGroup (name.length + 1)
    checkLookbehind group
    return .reference group

/-- Numbers of groups stay below this one. -/
def maxGroups : Nat := Nat.pow 2 30 - 1

/-- The group of a condition, by its name or number. -/
def readConditionGroup : ReadM Nat := do
  let name ← nameUntil ')' "group name"
  let back := name.length + 1
  let group ←
    if isIdentifier name.toList then
      match (← get).names.lookup name with
      | some group => pure group
      | none => failBack (.unknownGroupName name) back
    else
      match readInteger 10 name with
      | .ok (.ofNat group) => do
        if group = 0 then failBack .badGroupNumber back
        if maxGroups ≤ group then failBack (.noSuchGroup group) back
        modify fun r =>
          if (r.conditions.lookup group).isSome then r
          else { r with conditions := r.conditions ++ [(group, r.position - back)] }
        pure group
      | _ => failBack (.badGroupName name) back
  checkLookbehind group
  return group

def skipComment (start : Nat) : (fuel : Nat) → ReadM Unit
  | 0 => failAt .unterminatedComment start
  | fuel + 1 => do
    match ← next with
    | none => failAt .unterminatedComment start
    | some token => if token.is ')' then return () else skipComment start fuel

def skipLine : (fuel : Nat) → ReadM Unit
  | 0 => return ()
  | fuel + 1 => do
    match ← next with
    | none => return ()
    | some token => if token.is '\n' then return () else skipLine fuel

/-- What the start of a group says about it. -/
inductive Opening where
  /-- A group to capture, which may have a name. -/
  | capture (name : Option String)
  | plain (added removed : Flags)
  | atomic
  | look (ahead negated : Bool)
  | condition (group : Nat)
  /-- A part that is complete. -/
  | part (part : Regex)
  | comment
  | flags
deriving Inhabited

def readNamedOpening : ReadM Opening := do
  if ← accept '<' then
    let name ← nameUntil '>' "group name"
    checkGroupName name
    return .capture (some name)
  else if ← accept '=' then return .part (← readNamedReference)
  else
    match ← next with
    | none => fail .unexpectedEnd
    | some token => failBack (.unknownExtension ("P" ++ token.text)) (token.length + 2)

def readLookbehindOpening : ReadM Opening := do
  match ← next with
  | none => fail .unexpectedEnd
  | some token =>
    if token.isOneOf "=!" then return .look false (token.is '!')
    else failBack (.unknownExtension ("<" ++ token.text)) (token.length + 2)

/-- The opening of a group after its parenthesis, whose place is `start`. -/
def readOpening (start : Nat) : ReadM Opening := do
  if !(← accept '?') then return .capture none
  match ← next with
  | none => fail .unexpectedEnd
  | some token =>
    let unknown : ReadM Opening := failBack (.unknownExtension token.text) (token.length + 1)
    if token.escaped then unknown
    else
      match token.char with
      | 'P' => readNamedOpening
      | ':' => return .plain [] []
      | '#' =>
        skipComment start ((← get).rest.length + 1)
        return .comment
      | '=' => return .look true false
      | '!' => return .look true true
      | '<' => readLookbehindOpening
      | '(' => return .condition (← readConditionGroup)
      | '>' => return .atomic
      | c =>
        let flag := Flag.ofLetter? c
        if flag.isNone && c != '-' then unknown
        else
          match ← readFlags flag with
          | .whole => return .flags
          | .inside added removed => return .plain added removed

def expectClosing (start : Nat) : ReadM Unit := do
  if !(← accept ')') then failAt .unterminatedGroup start

/-! ## Expressions -/

def isVerboseSpace (c : Char) : Bool :=
  c == ' ' || c == '\t' || c == '\n' || c == '\r' || c == '\x0b' || c == '\x0c'

def sequenceOf : List Regex → Regex
  | [part] => part
  | parts => .sequence parts

mutual

def readChoice (fuel : Nat) (verbose nested : Bool) (done : List Regex) : ReadM Regex := do
  match fuel with
  | 0 => fail .unexpectedEnd
  | fuel + 1 =>
    let parts ← readParts fuel verbose (!nested && done.isEmpty) []
    let done := done ++ [.sequence parts]
    if ← accept '|' then
      let whole := (← get).flags.has .verbose
      readChoice fuel (if nested then verbose else whole) nested done
    else
      match done with
      | [branch] => return branch
      | branches => return .choice branches

/--
The parts of one branch; `done` holds those read so far, last first. Only the `first` branch of
the whole expression may start with flags for all of it.
-/
def readParts (fuel : Nat) (verbose first : Bool) (done : List Regex) : ReadM (List Regex) := do
  match fuel with
  | 0 => fail .unexpectedEnd
  | fuel + 1 =>
    match ← peek with
    | none => return done.reverse
    | some token =>
      let start := (← get).position
      if token.isOneOf "|)" then return done.reverse
      advance
      if token.escaped then
        let part ← readEscape token.char
        readParts fuel verbose first (part :: done)
      else if verbose && isVerboseSpace token.char then readParts fuel verbose first done
      else if verbose && token.char == '#' then
        skipLine ((← get).rest.length + 1)
        readParts fuel verbose first done
      else
        match token.char with
        | '[' =>
          let part ← readSet
          readParts fuel verbose first (part :: done)
        | '?' => readParts fuel verbose first (← repeatLast start ⟨0, some 1⟩ done)
        | '*' => readParts fuel verbose first (← repeatLast start ⟨0, none⟩ done)
        | '+' => readParts fuel verbose first (← repeatLast start ⟨1, none⟩ done)
        | '\x7b' =>
          match ← readBraces with
          | some rounds => readParts fuel verbose first (← repeatLast start rounds done)
          | none => readParts fuel verbose first (.char 0x7b :: done)
        | '.' => readParts fuel verbose first (.any :: done)
        | '^' => readParts fuel verbose first (.anchor .lineStart :: done)
        | '$' => readParts fuel verbose first (.anchor .lineEnd :: done)
        | '(' =>
          match ← readOpening start with
          | .comment => readParts fuel verbose first done
          | .flags =>
            if !first || !done.isEmpty then failAt .misplacedFlags start
            let whole := (← get).flags.has .verbose
            readParts fuel whole first done
          | .part part => readParts fuel verbose first (part :: done)
          | opening =>
            let part ← readGroup fuel verbose start opening
            readParts fuel verbose first (part :: done)
        | c => readParts fuel verbose first (.char c.toNat :: done)

def readGroup (fuel : Nat) (verbose : Bool) (start : Nat) (opening : Opening) : ReadM Regex := do
  match fuel with
  | 0 => fail .unexpectedEnd
  | fuel + 1 =>
    match opening with
    | .capture name =>
      let group ← openGroup name
      let body ← readChoice fuel verbose true []
      expectClosing start
      closeGroup group body
      return .group (some group) [] [] body
    | .plain added removed =>
      let verbose := (verbose || added.has .verbose) && !removed.has .verbose
      let body ← readChoice fuel verbose true []
      expectClosing start
      return .group none added removed body
    | .atomic =>
      let body ← readChoice fuel verbose true []
      expectClosing start
      return .atomic body
    | .look ahead negated =>
      let outer := (← get).lookbehindStart
      if !ahead && outer.isNone then
        modify fun r => { r with lookbehindStart := some r.groupCount }
      let body ← readChoice fuel verbose true []
      if !ahead && outer.isNone then modify fun r => { r with lookbehindStart := none }
      expectClosing start
      return .look ahead negated body
    | .condition group =>
      let yes ← readParts fuel verbose false []
      let no ←
        if ← accept '|' then
          let parts ← readParts fuel verbose false []
          if ((← peek).map (·.is '|')).getD false then fail .tooManyBranches
          pure (some (sequenceOf parts))
        else pure none
      expectClosing start
      return .condition group (sequenceOf yes) no
    | .part part => return part
    | .comment | .flags => return .sequence []

end

/-! ## Whole expressions -/

mutual

/-- Checks what can be told only when all groups are known, from left to right. -/
def check (groups : Nat → Width) (template : Bool) : Regex → Except Fault Unit
  | .sequence parts => checkAll groups template parts
  | .choice branches => checkAll groups template branches
  | .repetition greed _ _ body =>
    if template then
      let greedName := match greed with
        | .greedy => "MAX_REPEAT"
        | .lazy => "MIN_REPEAT"
        | .possessive => "POSSESSIVE_REPEAT"
      .error (.bad (.templateRepeat greedName) none)
    else check groups template body
  | .group _ _ _ body => check groups template body
  | .atomic body => check groups template body
  | .look ahead _ body =>
    let w := body.width groups
    if !ahead && decide (maxRounds < w.least) then .error (.bad .lookbehindTooLong none)
    else if !ahead && !w.isFixed then .error (.bad .lookbehindNotFixed none)
    else check groups template body
  | .condition _ yes none => check groups template yes
  | .condition _ yes (some no) =>
    match check groups template yes with
    | .ok () => check groups template no
    | .error fault => .error fault
  | _ => .ok ()

def checkAll (groups : Nat → Width) (template : Bool) : List Regex → Except Fault Unit
  | [] => .ok ()
  | part :: parts =>
    match check groups template part with
    | .ok () => checkAll groups template parts
    | .error fault => .error fault

end

def readWhole : ReadM Regex := do
  let r ← get
  if r.rest == ['\\'] then throw (.bad .danglingEscape (some 0))
  let root ← readChoice (4 * r.rest.length + 4) false false []
  let r ← get
  if r.flags.has .ascii && r.flags.has .unicode then throw .asciiAndUnicode
  if (← peek).isSome then fail .unbalancedGroup
  if let some (group, position) := r.conditions.find? fun (group, _) => r.groupCount ≤ group then
    failAt (.noSuchGroup group) position
  return root

end RegexReader

/-- An expression that is ready for matching. -/
structure Pattern where
  source : String
  root : Regex
  flags : Regex.Flags
  groupCount : Nat
  /-- The width of each group, for the lookbehinds. -/
  groupWidth : Nat → Regex.Width

open RegexReader in
def Pattern.read (source : String) : Except Regex.Fault Pattern := do
  let (root, r) ← readWhole.run ⟨source.toList, 0, [], [], [], none, []⟩
  check r.widthOf (r.flags.has .template) root
  return ⟨source, root, r.flags, r.groupCount, r.widthOf⟩

end JsonSchema

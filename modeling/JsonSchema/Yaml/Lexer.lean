import JsonSchema.Yaml.Block
import JsonSchema.Yaml.Plain
import JsonSchema.Yaml.Quoted
import JsonSchema.Yaml.Tag

/-!
# The tokens of a text

A mapping key has no mark in front of it: only the colon behind it shows that it was one. So a
token that may be a key waits until the text behind it decides, and the marks of a key and of its
mapping go in front of it then.
-/

namespace JsonSchema.Yaml

/-- The tokens of a text, up to a fault if there is one. -/
structure TokenStream where
  tokens : List PlacedToken
  fault : Option YamlFault
deriving Inhabited

/-- A key on one line has so many characters at most. -/
def maxKeyLength : Nat := 1024

/-- A token that may turn out to be a mapping key. -/
structure PossibleKey where
  flowDepth : Nat
  number : Nat
  required : Bool
  index : Nat
  place : Place
deriving Repr, Inhabited

/--
A text that is being split. `waiting` holds the tokens that have been read and not released,
`released` counts the others. `indents` holds the columns of the open block collections, innermost
first.
-/
structure Lexer where
  cursor : Cursor
  waiting : List PlacedToken
  released : Nat
  indents : List Nat
  flowDepth : Nat
  keyAllowed : Bool
  keys : List PossibleKey
  finished : Bool
deriving Inhabited

namespace Lexer

def start (cs : List Char) : Lexer :=
  { cursor := .ofChars cs, waiting := [], released := 0, indents := [], flowDepth := 0
    keyAllowed := true, keys := [], finished := false }

def inFlow (l : Lexer) : Bool := l.flowDepth != 0

/-- The column of the innermost block collection, and zero outside all of them. -/
def indent (l : Lexer) : Nat := l.indents.headD 0

def column (l : Lexer) : Nat := l.cursor.place.column

def fail {α : Type} (l : Lexer) (problem : YamlProblem) : Except YamlFault α :=
  .error (.here l.cursor.place problem)

def allowKey (l : Lexer) (allowed : Bool) : Lexer := { l with keyAllowed := allowed }

/-! ## Tokens -/

def add (l : Lexer) (token : Token) (start stop : Place) : Lexer :=
  { l with waiting := l.waiting ++ [⟨token, start, stop⟩] }

def addHere (l : Lexer) (token : Token) : Lexer := l.add token l.cursor.place l.cursor.place

def addUpTo (l : Lexer) (token : Token) (behind : Cursor) : Lexer :=
  { l.add token l.cursor.place behind.place with cursor := behind }

def addMark (l : Lexer) (token : Token) (length : Nat) : Lexer :=
  l.addUpTo token (l.cursor.skip length)

/-- Puts a token in front of the one with this number. -/
def insert (l : Lexer) (number : Nat) (token : Token) (place : Place) : Lexer :=
  { l with waiting := l.waiting.insertIdx (number - l.released) ⟨token, place, place⟩ }

/-! ## Possible keys -/

def key? (l : Lexer) : Option PossibleKey := l.keys.find? (·.flowDepth == l.flowDepth)

def forgetKey (l : Lexer) : Lexer :=
  { l with keys := l.keys.filter (·.flowDepth != l.flowDepth) }

def dropKey (l : Lexer) : Except YamlFault Lexer :=
  if l.key?.any (·.required) then l.fail .missingColon else .ok l.forgetKey

def isStale (l : Lexer) (key : PossibleKey) : Bool :=
  key.place.line != l.cursor.place.line || decide (maxKeyLength < l.cursor.index - key.index)

def dropStaleKeys (l : Lexer) : Except YamlFault Lexer :=
  if l.keys.any fun key => key.required && l.isStale key then l.fail .missingColon
  else .ok { l with keys := l.keys.filter (!l.isStale ·) }

/-- Notes that the next token may be a key. -/
def saveKey (l : Lexer) : Except YamlFault Lexer := do
  if !l.keyAllowed then return l
  let kept ← l.dropKey
  let key : PossibleKey :=
    { flowDepth := l.flowDepth
      number := l.released + l.waiting.length
      required := !l.inFlow && l.indent == l.column
      index := l.cursor.index
      place := l.cursor.place }
  return { kept with keys := key :: kept.keys }

/-! ## Block collections -/

/-- Ends the block collections that stand further to the right than this column. -/
def closeBlocks (l : Lexer) (column : Nat) : Lexer :=
  if l.inFlow then l
  else
    let closed := l.indents.takeWhile (column < ·)
    closed.foldl (fun l _ => l.addHere .blockEnd)
      { l with indents := l.indents.dropWhile (column < ·) }

/-- Whether a block collection at this column is a new one. -/
def opensBlock (l : Lexer) (column : Nat) : Bool := !l.inFlow && decide (l.indent < column)

def openBlock (l : Lexer) (token : Token) : Lexer :=
  if l.opensBlock l.column then { l with indents := l.column :: l.indents }.addHere token else l

/-! ## Reading one token -/

/-- Drops spaces, comments and line breaks in `fuel` steps. -/
def toNextTokenIn : Nat → Lexer → Lexer
  | 0, l => l
  | fuel + 1, l =>
    let c := l.cursor.dropSpaces.dropComment
    if isLineBreak c.head then
      toNextTokenIn fuel { l with cursor := c.lineBreak.2, keyAllowed := l.keyAllowed || !l.inFlow }
    else { l with cursor := c }

def toNextToken (l : Lexer) : Lexer :=
  let c := if l.cursor.index = 0 ∧ l.cursor.head = '\uFEFF' then l.cursor.next else l.cursor
  toNextTokenIn (c.rest.length + 1) { l with cursor := c }

/-- Ends all block collections; what follows is no part of the document. -/
def leaveDocument (l : Lexer) : Except YamlFault Lexer :=
  return (← (l.closeBlocks 0).dropKey).allowKey false

def readEnd (l : Lexer) : Except YamlFault Lexer := do
  return { (← l.leaveDocument).addHere .streamEnd with keys := [], finished := true }

def readDirective (l : Lexer) : Except YamlFault Lexer := do
  let l ← l.leaveDocument
  let (directive, behind) ← l.cursor.directive
  let l := l.addUpTo (.directive directive) behind
  return { l with cursor := ← behind.dropLineRest }

def readSeparator (l : Lexer) : Except YamlFault Lexer := do
  let l ← l.leaveDocument
  return l.addMark (if l.cursor.head == '-' then .documentStart else .documentEnd) 3

def readFlowStart (l : Lexer) (token : Token) : Except YamlFault Lexer := do
  let l ← l.saveKey
  return { l with flowDepth := l.flowDepth + 1, keyAllowed := true }.addMark token 1

def readFlowEnd (l : Lexer) (token : Token) : Except YamlFault Lexer := do
  let l ← l.dropKey
  return { l with flowDepth := l.flowDepth - 1, keyAllowed := false }.addMark token 1

def readFlowEntry (l : Lexer) : Except YamlFault Lexer := do
  return (← (l.allowKey true).dropKey).addMark .flowEntry 1

def readBlockEntry (l : Lexer) : Except YamlFault Lexer := do
  if !l.inFlow && !l.keyAllowed then l.fail .sequenceEntryNotAllowed
  let l := l.openBlock .blockSequenceStart
  return (← (l.allowKey true).dropKey).addMark .blockEntry 1

def readKey (l : Lexer) : Except YamlFault Lexer := do
  if !l.inFlow && !l.keyAllowed then l.fail .mappingKeyNotAllowed
  let l := l.openBlock .blockMappingStart
  return (← (l.allowKey !l.inFlow).dropKey).addMark .key 1

/-- Marks a token as a key; its mapping starts with it unless it is open. -/
def markKey (l : Lexer) (key : PossibleKey) : Lexer :=
  let column := key.place.column
  let marked := l.forgetKey.insert key.number .key key.place
  if l.opensBlock column then
    { marked with indents := column :: l.indents }.insert key.number .blockMappingStart key.place
  else marked

def readValue (l : Lexer) : Except YamlFault Lexer := do
  match l.key? with
  | some key => return ((l.markKey key).allowKey false).addMark .value 1
  | none =>
    if !l.inFlow && !l.keyAllowed then l.fail .mappingValueNotAllowed
    let l := l.openBlock .blockMappingStart
    return (← (l.allowKey !l.inFlow).dropKey).addMark .value 1

def readNode (l : Lexer) (read : Cursor → Except YamlFault (Token × Cursor)) :
    Except YamlFault Lexer := do
  let l := (← l.saveKey).allowKey false
  let (token, behind) ← read l.cursor
  return l.addUpTo token behind

def anchorName (c : Cursor) : Except YamlFault (String × Cursor) :=
  c.next.name fun ch => isBlankOrEnd ch || "?:,]\x7d%@\x60".toList.contains ch

def readBlockScalar (l : Lexer) (folded : Bool) : Except YamlFault Lexer := do
  let l ← (l.allowKey true).dropKey
  let (value, behind) ← l.cursor.block folded l.indent
  return l.addUpTo (.scalar value false) behind

def readPlain (l : Lexer) : Except YamlFault Lexer := do
  let l ← l.saveKey
  let plain := l.cursor.plain l.inFlow l.indent
  let l := l.add (.scalar (String.ofList plain.text) true) l.cursor.place plain.stop
  return { l with cursor := plain.cursor, keyAllowed := plain.crossesLine }

def isIndicator (c : Char) : Bool :=
  isBlankOrEnd c || isFlowMark c || "-?:#&*!|>'\"%@\x60".toList.contains c

/-- Whether a plain scalar starts here; some indicators need a blank behind them to be ones. -/
def startsPlain (l : Lexer) : Bool :=
  let ch := l.cursor.head
  !isIndicator ch || (!isBlankOrEnd (l.cursor.peek 1) &&
    (ch == '-' || (!l.inFlow && (ch == '?' || ch == ':'))))

def readToken (l : Lexer) : Except YamlFault Lexer :=
  let ch := l.cursor.head
  let beforeBlank := isBlankOrEnd (l.cursor.peek 1)
  if ch == endMark then l.readEnd
  else if l.column == 1 && ch == '%' then l.readDirective
  else if l.column == 1 && l.cursor.atSeparator then l.readSeparator
  else if ch == '[' then l.readFlowStart .flowSequenceStart
  else if ch == '{' then l.readFlowStart .flowMappingStart
  else if ch == ']' then l.readFlowEnd .flowSequenceEnd
  else if ch == '}' then l.readFlowEnd .flowMappingEnd
  else if ch == ',' then l.readFlowEntry
  else if ch == '-' && beforeBlank then l.readBlockEntry
  else if ch == '?' && (l.inFlow || beforeBlank) then l.readKey
  else if ch == ':' && (l.inFlow || beforeBlank) then l.readValue
  else if ch == '*' then l.readNode fun c => return ((← anchorName c).map .alias id)
  else if ch == '&' then l.readNode fun c => return ((← anchorName c).map .anchor id)
  else if ch == '!' then l.readNode fun c => return ((← c.tag).map .tag id)
  else if ch == '|' && !l.inFlow then l.readBlockScalar false
  else if ch == '>' && !l.inFlow then l.readBlockScalar true
  else if ch == '\x27' then
    l.readNode fun c => return ((← c.quoted false).map (.scalar · false) id)
  else if ch == '"' then
    l.readNode fun c => return ((← c.quoted true).map (.scalar · false) id)
  else if l.startsPlain then l.readPlain
  else l.fail (.noTokenStart ch)

/-- Reads one more token, behind the block ends that its column calls for. -/
def step (l : Lexer) : Except YamlFault Lexer := do
  let l ← l.toNextToken.dropStaleKeys
  let l ← (l.closeBlocks l.column).readToken
  if l.finished then return l else l.dropStaleKeys

/-! ## All tokens -/

/-- The number of waiting tokens in front of all possible keys. -/
def readyCount (l : Lexer) : Nat :=
  l.keys.foldl (fun n key => min n (key.number - l.released)) l.waiting.length

/-- The tokens in `fuel` steps; `done` holds those released so far, last first. -/
def tokensFrom : Nat → List PlacedToken → Lexer → TokenStream
  | 0, done, _ => ⟨done.reverse, none⟩
  | fuel + 1, done, l =>
    if l.finished then ⟨done.reverse, none⟩
    else
      match l.step with
      | .error fault => ⟨done.reverse, some fault⟩
      | .ok l =>
        let ready := l.readyCount
        tokensFrom fuel ((l.waiting.take ready).reverse ++ done)
          { l with waiting := l.waiting.drop ready, released := l.released + ready }

end Lexer

/-- The tokens of a text. Every step but the last takes a character. -/
def TokenStream.ofChars (cs : List Char) : TokenStream :=
  Lexer.tokensFrom (cs.length + 1) [] (Lexer.start cs)

end JsonSchema.Yaml

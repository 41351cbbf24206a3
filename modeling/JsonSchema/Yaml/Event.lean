import JsonSchema.Yaml.Lexer

/-!
# The events of a text

The grammar turns tokens into events: the start and the end of each collection, and the scalars and
aliases inside them. A stack holds what the grammar expects next, so the events come one by one and
a fault comes only behind the events before it.
-/

namespace JsonSchema.Yaml

/-- An anchor and a tag in front of a node. -/
structure Properties where
  anchor : Option String
  tag : Option String
deriving DecidableEq, Repr, Inhabited

/--
What stands in a document. A scalar is `untagged` when its text decides on its tag, as it does
without quotes.
-/
inductive Event where
  | documentStart
  | documentEnd
  | streamEnd
  | alias (anchor : String)
  | scalar (properties : Properties) (untagged : Bool) (value : String)
  | sequenceStart (properties : Properties)
  | mappingStart (properties : Properties)
  | collectionEnd
deriving DecidableEq, Repr, Inhabited

structure PlacedEvent where
  event : Event
  place : Place
deriving DecidableEq, Repr, Inhabited

structure EventStream where
  events : List PlacedEvent
  fault : Option YamlFault
deriving Inhabited

inductive Expected where
  | firstDocument
  | document
  | documentContent
  | documentEnd
  | blockNode
  | blockEntry
  | indentlessEntry
  | blockKey
  | blockValue
  | flowEntry (first : Bool)
  | pairKey (place : Place)
  | pairValue
  | pairEnd
  | flowKey (first : Bool)
  | flowValue
  | flowMissingValue
deriving DecidableEq, Repr

/-! ## Reading tokens -/

/-- The tokens that are left, and the tag handles of the document. -/
structure EventReader where
  stream : TokenStream
  last : Place
  handles : List (String × String)
deriving Inhabited

abbrev EventM := StateT EventReader (Except YamlFault)

/-- The handles that need no directive. -/
def standardHandles : List (String × String) := [("!", "!"), ("!!", "tag:yaml.org,2002:")]

namespace EventM

def peek : EventM PlacedToken := do
  let r ← get
  match r.stream.tokens, r.stream.fault with
  | token :: _, _ => return token
  | [], some fault => throw fault
  | [], none => return ⟨.streamEnd, r.last, r.last⟩

def take : EventM PlacedToken := do
  let token ← peek
  modify fun r => { r with
    stream := { r.stream with tokens := r.stream.tokens.drop 1 }, last := token.stop }
  return token

def takeIf (token : Token) : EventM (Option PlacedToken) := do
  if (← peek).token == token then return some (← take) else return none

def sees (tokens : List Token) : EventM Bool := return tokens.contains (← peek).token

def unexpected {α : Type} (what : ExpectedPart) : EventM α := do
  let token ← peek
  throw (.here token.start (.expectedPart what token.token.name))

end EventM

open EventM

abbrev Step := PlacedEvent × List Expected

/-! ## Nodes -/

/-- A scalar that the text leaves out. -/
def emptyScalar (place : Place) : PlacedEvent := ⟨.scalar ⟨none, none⟩ true "", place⟩

def readAnchor : EventM (Option (String × Place)) := do
  match (← peek).token with
  | .anchor name => return some (name, (← take).start)
  | _ => return none

def readTag : EventM (Option (WrittenTag × Place)) := do
  match (← peek).token with
  | .tag tag => return some (tag, (← take).start)
  | _ => return none

/-- The full tag behind a handle. -/
def fullTag (tag : WrittenTag) (place : Place) : EventM String := do
  match tag.handle with
  | none => return tag.rest
  | some handle =>
    match (← get).handles.lookup handle with
    | some start => return start ++ tag.rest
    | none => throw (.here place (.undefinedHandle handle))

/-- An anchor and a tag, in any order, and where the first of them starts. -/
def readProperties : EventM (Properties × Option Place) := do
  let anchor ← readAnchor
  let tag ← readTag
  let late ← if anchor.isNone && tag.isSome then readAnchor else pure none
  let full ← tag.mapM fun (tag, place) => fullTag tag place
  return (⟨(anchor <|> late).map (·.1), full⟩, anchor.map (·.2) <|> tag.map (·.2))

/-- The tag that leaves the choice to the text of a scalar, even between quotes. -/
def openTag : String := "!"

def Properties.chosen (p : Properties) : Properties := { p with tag := p.tag.filter (· != openTag) }

/-- A node. `block` says whether block collections may start here, and `indentless` whether the
entries of a sequence may stand without an indentation of their own. -/
def readContent (block indentless : Bool) : EventM Step := do
  let (properties, place?) ← readProperties
  let token ← peek
  let place := place?.getD token.start
  let chosen := properties.chosen
  let opened (event : Event) (expected : Expected) : EventM Step := do
    discard take
    return (⟨event, place⟩, [expected])
  if indentless && token.token == .blockEntry then
    return (⟨.sequenceStart chosen, place⟩, [.indentlessEntry])
  match token.token with
  | .scalar value plain =>
    discard take
    let untagged := if properties.tag.isNone then plain else properties.tag == some openTag
    return (⟨.scalar chosen untagged value, place⟩, [])
  | .flowSequenceStart => opened (.sequenceStart chosen) (.flowEntry true)
  | .flowMappingStart => opened (.mappingStart chosen) (.flowKey true)
  | other =>
    if block && other == .blockSequenceStart then opened (.sequenceStart chosen) .blockEntry
    else if block && other == .blockMappingStart then opened (.mappingStart chosen) .blockKey
    else if properties.anchor.isSome || properties.tag.isSome then
      return (⟨.scalar chosen chosen.tag.isNone "", place⟩, [])
    else unexpected .nodeContent

/-- A node or an alias; `behind` is expected behind it. -/
def readNode (block indentless : Bool) (behind : List Expected) : EventM Step := do
  match (← peek).token with
  | .alias anchor =>
    let token ← take
    return (⟨.alias anchor, token.start⟩, behind)
  | _ =>
    let (event, expected) ← readContent block indentless
    return (event, expected ++ behind)

/-- A node, or an empty scalar in front of one of these tokens. -/
def readNodeUnless (stops : List Token) (place : Place) (block indentless : Bool)
    (behind : Expected) : EventM Step := do
  if ← sees stops then return (emptyScalar place, [behind])
  else readNode block indentless [behind]

/-! ## Documents -/

/-- The handles that the directives in front of a document give. -/
def readDirectives (versionSeen : Bool) (handles : List (String × String)) :
    Nat → EventM (List (String × String))
  | 0 => return handles
  | fuel + 1 => do
    match (← peek).token with
    | .directive directive =>
      let token ← take
      match directive with
      | .version major =>
        if versionSeen then throw (.here token.start .duplicateVersion)
        if major != 1 then throw (.here token.start .incompatibleVersion)
        readDirectives true handles fuel
      | .tagHandle handle start =>
        if (handles.lookup handle).isSome then
          throw (.here token.start (.duplicateHandle handle))
        readDirectives versionSeen (handles ++ [(handle, start)]) fuel
      | .other => readDirectives versionSeen handles fuel
    | _ => return handles

/-- Drops the marks that end a document. -/
def dropDocumentEnds : Nat → EventM Unit
  | 0 => return
  | fuel + 1 => do
    if (← takeIf .documentEnd).isSome then dropDocumentEnds fuel

/-- Whether a document starts here that needs no mark. -/
def startsBareDocument : Token → Bool
  | .directive _ | .documentStart | .streamEnd => false
  | _ => true

/-- A document behind its directives and its mark, or the end of the text. -/
def readDocument : EventM Step := do
  let count := (← get).stream.tokens.length
  dropDocumentEnds count
  let first ← peek
  if first.token == .streamEnd then return (⟨.streamEnd, first.start⟩, [])
  let handles ← readDirectives false [] count
  modify fun r => { r with handles := handles ++ standardHandles }
  if (← takeIf .documentStart).isNone then unexpected .documentStart
  return (⟨.documentStart, first.start⟩, [.documentContent, .documentEnd])

def endsDocument : Token → Bool
  | .directive _ | .documentStart | .documentEnd | .streamEnd => true
  | _ => false

/-! ## The grammar -/

def endBlock : EventM Step := do
  if let some token ← takeIf .blockEnd then return (⟨.collectionEnd, token.start⟩, [])
  else unexpected .blockEnd

/-- Drops the comma in front of an entry, which only the end of the collection may replace. -/
def dropFlowEntry (closing : Token) (rest : ExpectedPart) : EventM Unit := do
  unless ← sees [closing, .flowEntry] do unexpected rest
  discard (takeIf .flowEntry)

/-- The next event where this is expected. -/
def Expected.read : Expected → EventM Step
  | .firstDocument => do
    let token ← peek
    if startsBareDocument token.token then
      modify fun r => { r with handles := standardHandles }
      return (⟨.documentStart, token.start⟩, [.blockNode, .documentEnd])
    else readDocument
  | .document => readDocument
  | .documentContent => do
    let token ← peek
    if endsDocument token.token then return (emptyScalar token.start, [])
    else readNode true false []
  | .documentEnd => do
    let token ← peek
    discard (takeIf .documentEnd)
    return (⟨.documentEnd, token.start⟩, [.document])
  | .blockNode => readNode true false []
  | .blockEntry => do
    if let some token ← takeIf .blockEntry then
      readNodeUnless [.blockEntry, .blockEnd] token.stop true false .blockEntry
    else endBlock
  | .indentlessEntry => do
    match ← takeIf .blockEntry with
    | some token =>
      readNodeUnless [.blockEntry, .key, .value, .blockEnd] token.stop true false .indentlessEntry
    | none => return (⟨.collectionEnd, (← peek).start⟩, [])
  | .blockKey => do
    if let some token ← takeIf .key then
      readNodeUnless [.key, .value, .blockEnd] token.stop true true .blockValue
    else endBlock
  | .blockValue => do
    match ← takeIf .value with
    | some token => readNodeUnless [.key, .value, .blockEnd] token.stop true true .blockKey
    | none => return (emptyScalar (← peek).start, [.blockKey])
  | .flowEntry first => do
    unless first do dropFlowEntry .flowSequenceEnd .sequenceRest
    if let some token ← takeIf .flowSequenceEnd then return (⟨.collectionEnd, token.start⟩, [])
    else if let some token ← takeIf .key then
      return (⟨.mappingStart ⟨none, none⟩, token.start⟩, [.pairKey token.stop, .flowEntry false])
    else readNode false false [.flowEntry false]
  | .pairKey place =>
    readNodeUnless [.value, .flowEntry, .flowSequenceEnd] place false false .pairValue
  | .pairValue => do
    match ← takeIf .value with
    | some token => readNodeUnless [.flowEntry, .flowSequenceEnd] token.stop false false .pairEnd
    | none => return (emptyScalar (← peek).start, [.pairEnd])
  | .pairEnd => return (⟨.collectionEnd, (← peek).start⟩, [])
  | .flowKey first => do
    unless first do dropFlowEntry .flowMappingEnd .mappingRest
    if let some token ← takeIf .flowMappingEnd then return (⟨.collectionEnd, token.start⟩, [])
    else if let some token ← takeIf .key then
      readNodeUnless [.value, .flowEntry, .flowMappingEnd] token.stop false false .flowValue
    else readNode false false [.flowMissingValue]
  | .flowValue => do
    match ← takeIf .value with
    | some token =>
      readNodeUnless [.flowEntry, .flowMappingEnd] token.stop false false (.flowKey false)
    | none => return (emptyScalar (← peek).start, [.flowKey false])
  | .flowMissingValue => return (emptyScalar (← peek).start, [.flowKey false])

/-! ## All events -/

/-- The events in `fuel` steps; `done` holds those read so far, last first. -/
def eventsFrom : Nat → List PlacedEvent → List Expected → EventReader → EventStream
  | 0, done, _, _ => ⟨done.reverse, none⟩
  | _ + 1, done, [], _ => ⟨done.reverse, none⟩
  | fuel + 1, done, next :: later, r =>
    match next.read.run r with
    | .error fault => ⟨done.reverse, some fault⟩
    | .ok ((event, expected), r) => eventsFrom fuel (event :: done) (expected ++ later) r

/-- No token leads to more events than this. -/
def eventsPerToken : Nat := 5

def EventStream.ofTokens (stream : TokenStream) : EventStream :=
  eventsFrom (eventsPerToken * (stream.tokens.length + 2)) [] [.firstDocument]
    { stream, last := ⟨1, 1⟩, handles := [] }

end JsonSchema.Yaml

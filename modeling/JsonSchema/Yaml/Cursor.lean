import JsonSchema.Json.Read
import JsonSchema.Text.Basic
import JsonSchema.Yaml.Fault

/-!
# Reading along a text

A cursor holds what is left of a text and the place where that starts. Behind its end a text reads
as the end mark, which no text holds.
-/

namespace JsonSchema.Yaml

/-- What stands behind the end of a text. -/
def endMark : Char := '\x00'

/-! ## Character classes -/

def isLineBreak (c : Char) : Bool :=
  c == '\n' || c == '\r' || c == '\x85' || c == '\u2028' || c == '\u2029'

def isLineEnd (c : Char) : Bool := isLineBreak c || c == endMark

/-- A space or the end of a line. -/
def isSpaceOrEnd (c : Char) : Bool := c == ' ' || isLineEnd c

/-- A space, a tab or the end of a line. -/
def isBlankOrEnd (c : Char) : Bool := c == '\t' || isSpaceOrEnd c

def isSpaceOrTab (c : Char) : Bool := c == ' ' || c == '\t'

def isAsciiLetterOrDigit (c : Char) : Bool := c.isAlpha || c.isDigit

/-- A character of the name of an anchor, a directive or a tag handle. -/
def isNameCharacter (c : Char) : Bool := isAsciiLetterOrDigit c || c == '-' || c == '_'

/-- A mark that opens, closes or separates a flow collection. -/
def isFlowMark (c : Char) : Bool := [',', '[', ']', '{', '}'].contains c

/-! ## Cursors -/

structure Cursor where
  rest : List Char
  index : Nat
  place : Place
deriving Repr, Inhabited

namespace Cursor

def ofChars (cs : List Char) : Cursor := ⟨cs, 0, ⟨1, 1⟩⟩

def head (c : Cursor) : Char := c.rest.headD endMark

/-- The character so far behind the cursor. -/
def peek (c : Cursor) (n : Nat) : Char := c.rest.getD n endMark

/-- Whether a character ends its line; a carriage return leaves that to a line feed behind it. -/
def endsLine (ch : Char) (rest : List Char) : Bool :=
  isLineBreak ch && !(ch == '\r' && rest.headD endMark == '\n')

/-- The place behind a character; a byte order mark takes no column. -/
def placeAfter (place : Place) (ch : Char) (rest : List Char) : Place :=
  if endsLine ch rest then ⟨place.line + 1, 1⟩
  else if ch == '\uFEFF' then place
  else ⟨place.line, place.column + 1⟩

def next (c : Cursor) : Cursor :=
  match c.rest with
  | [] => c
  | ch :: rest => ⟨rest, c.index + 1, placeAfter c.place ch rest⟩

def skip : Nat → Cursor → Cursor
  | 0, c => c
  | n + 1, c => skip n c.next

/-- The longest run of such characters, and the cursor behind it. -/
def span (c : Cursor) (p : Char → Bool) : List Char × Cursor :=
  let run := c.rest.takeWhile p
  (run, skip run.length c)

def dropWhile (c : Cursor) (p : Char → Bool) : Cursor := (c.span p).2

/-- A line break as the text keeps it, if one stands here, and the cursor behind it. -/
def lineBreak (c : Cursor) : List Char × Cursor :=
  match c.rest with
  | '\r' :: '\n' :: _ => (['\n'], skip 2 c)
  | ch :: _ =>
    if ch == '\u2028' || ch == '\u2029' then ([ch], c.next)
    else if isLineBreak ch then (['\n'], c.next)
    else ([], c)
  | [] => ([], c)

/-- Whether the mark that starts or the mark that ends a document stands here. -/
def atSeparator (c : Cursor) : Bool :=
  (startsWithChars ['-', '-', '-'] c.rest || startsWithChars ['.', '.', '.'] c.rest) &&
    isBlankOrEnd (c.peek 3)

def dropSpaces (c : Cursor) : Cursor := c.dropWhile (· == ' ')

/-- The cursor behind a comment, if one stands here. -/
def dropComment (c : Cursor) : Cursor :=
  if c.head == '#' then c.dropWhile (!isLineEnd ·) else c

def expected {α : Type} (c : Cursor) (what : ExpectedText) : Except YamlFault α :=
  .error (.here c.place (.expectedText what c.head))

/-- The cursor itself, where a character of this class stands. -/
def require (c : Cursor) (p : Char → Bool) (what : ExpectedText) : Except YamlFault Cursor :=
  if p c.head then .ok c else c.expected what

/-- Drops what may stand behind a directive or a block header: spaces and a comment. -/
def dropLineRest (c : Cursor) : Except YamlFault Cursor := do
  let c ← c.dropSpaces.dropComment.require isLineEnd .commentOrBreak
  return c.lineBreak.2

def name (c : Cursor) (stop : Char → Bool) : Except YamlFault (String × Cursor) :=
  let (name, behind) := c.span isNameCharacter
  if name.isEmpty || !stop behind.head then behind.expected .name
  else .ok (String.ofList name, behind)

def hexNumber (c : Cursor) (count : Nat) (what : ExpectedText) : Except YamlFault (Nat × Cursor) :=
  match (List.range count).find? fun k => (JsonReader.hexValue? (c.peek k)).isNone with
  | some k => .error (.here c.place (.expectedText what (c.peek k)))
  | none =>
    let digits := (c.rest.take count).filterMap JsonReader.hexValue?
    .ok (digits.foldl (16 * · + ·) 0, skip count c)

end Cursor

end JsonSchema.Yaml

import JsonSchema.Yaml.Cursor

/-!
# Reading quoted scalars

A line break between quotes is a space, and each empty line behind it is a line break. Single
quotes take a doubled quote for one; double quotes take escapes.
-/

namespace JsonSchema.Yaml

/-- A character that means itself between quotes of either kind. -/
def isQuotedCharacter (c : Char) : Bool :=
  !(c == '\x27' || c == '"' || c == '\\' || isBlankOrEnd c)

/-- What an escape of one letter stands for. -/
def escapedCharacter? (c : Char) : Option Char :=
  [('0', '\x00'), ('a', '\x07'), ('b', '\x08'), ('t', '\t'), ('\t', '\t'), ('n', '\n'),
    ('v', '\x0B'), ('f', '\x0C'), ('r', '\r'), ('e', '\x1B'), (' ', ' '), ('"', '"'),
    ('\\', '\\'), ('/', '/'), ('N', '\x85'), ('_', '\u00A0'), ('L', '\u2028'),
    ('P', '\u2029')].lookup c

/-- How many hexadecimal digits follow the letter of an escape. -/
def escapeLength? (c : Char) : Option Nat := [('x', 2), ('u', 4), ('U', 8)].lookup c

/-- Character codes reach so far. -/
def characterCodes : Nat := 0x110000

/-- The code of an escape is kept in so many bits. -/
def escapeBits : Nat := 31

/-- The character with a code; half of a surrogate pair is none. -/
def characterOfCode (code : Nat) : Except YamlFault Char :=
  if Nat.pow 2 escapeBits ≤ code then .error (.scalar .escapeTooLarge)
  else if characterCodes ≤ code then .error (.scalar .noSuchCharacter)
  else if code.isValidChar then .ok (Char.ofNat code)
  else .ok '\uFFFD'

namespace Cursor

/-- The line breaks of empty lines, in `fuel` steps. No document may start or end in between. -/
def quotedBreaksIn : Nat → Cursor → Except YamlFault (List Char × Cursor)
  | 0, c => .ok ([], c)
  | fuel + 1, c =>
    if c.atSeparator then .error (.here c.place .separatorInQuotes)
    else do
      let c := c.dropWhile isSpaceOrTab
      if isLineBreak c.head then
        let (line, c) := c.lineBreak
        let (more, c) ← quotedBreaksIn fuel c
        return (line ++ more, c)
      else return ([], c)

def quotedBreaks (c : Cursor) : Except YamlFault (List Char × Cursor) :=
  quotedBreaksIn (c.rest.length + 1) c

/-- What an escape stands for; the cursor is behind its backslash. -/
def quotedEscape (c : Cursor) : Except YamlFault (List Char × Cursor) :=
  match escapedCharacter? c.head, escapeLength? c.head with
  | some ch, _ => .ok ([ch], c.next)
  | none, some length => do
    let (code, c) ← c.next.hexNumber length (.escape length)
    return ([← characterOfCode code], c)
  | none, none =>
    if isLineBreak c.head then c.lineBreak.2.quotedBreaks
    else .error (.here c.place (.unknownEscape c.head))

/-- A text without blanks in `fuel` steps; `done` holds what was read so far, last first. -/
def quotedText (double : Bool) : Nat → List Char → Cursor → Except YamlFault (List Char × Cursor)
  | 0, done, c => .ok (done, c)
  | fuel + 1, done, c => do
    let (run, c) := c.span isQuotedCharacter
    let done := run.reverse ++ done
    if double then
      if c.head == '\x27' then quotedText double fuel ('\x27' :: done) c.next
      else if c.head == '\\' then
        let (chars, c) ← c.next.quotedEscape
        quotedText double fuel (chars.reverse ++ done) c
      else return (done, c)
    else if c.head == '\x27' && c.peek 1 == '\x27' then
      quotedText double fuel ('\x27' :: done) (skip 2 c)
    else if c.head == '"' || c.head == '\\' then quotedText double fuel (c.head :: done) c.next
    else return (done, c)

/-- Blanks between quotes; a line break takes those around it. -/
def quotedBlanks (c : Cursor) : Except YamlFault (List Char × Cursor) := do
  let (blanks, c) := c.span isSpaceOrTab
  if c.head == endMark then .error (.here c.place .endInQuotes)
  else if isLineBreak c.head then
    let (line, c) := c.lineBreak
    let (breaks, c) ← c.quotedBreaks
    return (if line != ['\n'] then line ++ breaks else if breaks.isEmpty then [' '] else breaks, c)
  else return (blanks, c)

/-- Texts and blanks in turn up to the closing quote, in `fuel` steps. -/
def quotedRest (double : Bool) : Nat → List Char → Cursor → Except YamlFault (List Char × Cursor)
  | 0, done, c => .ok (done.reverse, c)
  | fuel + 1, done, c => do
    let (done, c) ← quotedText double (c.rest.length + 1) done c
    if c.head == (if double then '"' else '\x27') then return (done.reverse, c.next)
    else
      let (blanks, c) ← c.quotedBlanks
      quotedRest double fuel (blanks.reverse ++ done) c

def quoted (double : Bool) (c : Cursor) : Except YamlFault (String × Cursor) := do
  let (chars, behind) ← quotedRest double (c.rest.length + 1) [] c.next
  return (String.ofList chars, behind)

end Cursor

end JsonSchema.Yaml

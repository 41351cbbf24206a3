import JsonSchema.Yaml.Cursor
import JsonSchema.Yaml.Token

/-!
# Reading tags and directives

A tag names the kind of a value. Its characters are those of a URI, where a percent sign leads the
bytes of any other character.
-/

namespace JsonSchema.Yaml

/-- A character that a URI holds as itself. -/
def isUriCharacter (c : Char) : Bool :=
  isAsciiLetterOrDigit c || "-;/?:@&=+$,_.!~*'()[]".toList.contains c

namespace Cursor

/-- The bytes behind percent signs, in `fuel` steps. -/
def uriBytes : Nat → Bytes → Cursor → Except YamlFault (Bytes × Cursor)
  | 0, done, c => .ok (done.reverse, c)
  | fuel + 1, done, c =>
    if c.head == '%' then do
      let (byte, c) ← c.next.hexNumber 2 .uriEscape
      uriBytes fuel (UInt8.ofNat byte :: done) c
    else .ok (done.reverse, c)

/-- The characters whose bytes stand behind percent signs. -/
def uriEscapes (c : Cursor) : Except YamlFault (List Char × Cursor) := do
  let (bytes, behind) ← uriBytes c.rest.length [] c
  match decodeUtf8 bytes with
  | .ok text => return (text.toList, behind)
  | .error error => .error (.here c.place (.badUriBytes error))

/-- The characters of a URI in `fuel` steps; `done` holds those read so far, last first. -/
def uriFrom : Nat → List Char → Cursor → Except YamlFault (List Char × Cursor)
  | 0, done, c => .ok (done.reverse, c)
  | fuel + 1, done, c => do
    let (run, c) := c.span isUriCharacter
    let done := run.reverse ++ done
    if c.head == '%' then
      let (chars, c) ← c.uriEscapes
      uriFrom fuel (chars.reverse ++ done) c
    else return (done.reverse, c)

def uri (c : Cursor) : Except YamlFault (String × Cursor) := do
  let (chars, behind) ← uriFrom (c.rest.length + 1) [] c
  if behind.index = c.index then c.expected .uri else return (String.ofList chars, behind)

/-- A tag handle: one exclamation mark, or a name between two. -/
def tagHandle (c : Cursor) : Except YamlFault (String × Cursor) := do
  let afterMark := (← c.require (· == '!') .tagMark).next
  if afterMark.head == ' ' then return ("!", afterMark)
  let (name, behind) := afterMark.span isNameCharacter
  let behind ← behind.require (· == '!') .tagMark
  return ("!" ++ String.ofList name ++ "!", behind.next)

/-- Whether a second exclamation mark ends a handle before the tag ends. -/
def hasNamedHandle (c : Cursor) : Bool :=
  (c.rest.drop 1).takeWhile (!isSpaceOrEnd ·) |>.contains '!'

def tag (c : Cursor) : Except YamlFault (WrittenTag × Cursor) := do
  let (tag, behind) ←
    if c.peek 1 == '<' then do
      let (rest, behind) ← (skip 2 c).uri
      let behind ← behind.require (· == '>') .tagEnd
      pure (⟨none, rest⟩, behind.next)
    else if isBlankOrEnd (c.peek 1) then pure (⟨none, "!"⟩, c.next)
    else do
      let (handle, behind) ← if c.hasNamedHandle then c.tagHandle else pure ("!", c.next)
      let (rest, behind) ← behind.uri
      pure (⟨some handle, rest⟩, behind)
  return (tag, ← behind.require isSpaceOrEnd .space)

/-! ## Directives -/

def versionNumber (c : Cursor) : Except YamlFault (Nat × Cursor) := do
  let c ← c.require Char.isDigit .digit
  let (digits, behind) := c.span Char.isDigit
  if maxIntegerDigits < digits.length then
    throw (.scalar (.numeral (.tooManyDigits digits.length)))
  return (JsonReader.digitsValue digits, behind)

/-- The two numbers of a version; the second one may be any. -/
def version (c : Cursor) : Except YamlFault (Directive × Cursor) := do
  let (major, c) ← c.dropSpaces.versionNumber
  let c ← c.require (· == '.') .digitOrPoint
  let (_, c) ← c.next.versionNumber
  return (.version major, ← c.require isSpaceOrEnd .digitOrSpace)

/-- A tag handle and the start of the tags that it stands for. -/
def handleDirective (c : Cursor) : Except YamlFault (Directive × Cursor) := do
  let (handle, c) ← c.dropSpaces.tagHandle
  let c ← c.require (· == ' ') .space
  let (start, c) ← c.dropSpaces.uri
  return (.tagHandle handle start, ← c.require isSpaceOrEnd .space)

def directive (c : Cursor) : Except YamlFault (Directive × Cursor) := do
  let (name, c) ← c.next.name isSpaceOrEnd
  match name with
  | "YAML" => c.version
  | "TAG" => c.handleDirective
  | _ => return (.other, c.dropWhile (!isLineEnd ·))

end Cursor

end JsonSchema.Yaml

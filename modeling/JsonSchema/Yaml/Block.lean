import JsonSchema.Yaml.Cursor

/-!
# Reading block scalars

The lines of a block scalar share an indentation. A literal one keeps its line breaks; a folded one
joins lines that start with text. The header says whether the last line breaks are kept.
-/

namespace JsonSchema.Yaml

/-- What becomes of the line breaks at the end: one is kept, or none, or all. -/
inductive Chomping where
  | clip | strip | keep
deriving DecidableEq, Repr

structure BlockHeader where
  chomping : Chomping
  indentation : Option Nat
deriving DecidableEq, Repr

/-- The way of chomping that a mark in the header stands for. -/
def Chomping.ofMark? (c : Char) : Option Chomping := [('+', keep), ('-', strip)].lookup c

namespace Cursor

def indentationMark (c : Cursor) : Except YamlFault (Option Nat × Cursor) :=
  if c.head == '0' then .error (.here c.place .zeroIndentation)
  else if c.head.isDigit then .ok (some (JsonReader.digitValue c.head), c.next)
  else .ok (none, c)

def chompingMark (c : Cursor) : Option Chomping × Cursor :=
  match Chomping.ofMark? c.head with
  | some chomping => (some chomping, c.next)
  | none => (none, c)

/-- The marks of the header, in any order. -/
def blockHeader (c : Cursor) : Except YamlFault (BlockHeader × Cursor) := do
  let (first, c) := c.chompingMark
  let (indentation, c) ← c.indentationMark
  let (second, c) := if first.isNone && indentation.isSome then c.chompingMark else (none, c)
  let c ← c.require isSpaceOrEnd .blockHeader
  return (⟨((first <|> second).getD .clip), indentation⟩, c)

/-- Empty lines in front of the text in `fuel` steps, and the widest indentation among them. -/
def blockStart : Nat → List Char → Nat → Cursor → List Char × Nat × Cursor
  | 0, breaks, widest, c => (breaks, widest, c)
  | fuel + 1, breaks, widest, c =>
    if c.head == ' ' then
      let c := c.next
      blockStart fuel breaks (max widest (c.place.column - 1)) c
    else if isLineBreak c.head then
      let (line, c) := c.lineBreak
      blockStart fuel (breaks ++ line) widest c
    else (breaks, widest, c)

def indentTo (indentation : Nat) : Nat → Cursor → Cursor
  | 0, c => c
  | fuel + 1, c =>
    if c.place.column ≤ indentation && c.head == ' ' then indentTo indentation fuel c.next else c

/-- Empty lines in `fuel` steps, and the indentation of the line behind them. -/
def blockBreaks (indentation : Nat) : Nat → List Char → Cursor → List Char × Cursor
  | 0, breaks, c => (breaks, c)
  | fuel + 1, breaks, c =>
    let c := indentTo indentation indentation c
    if isLineBreak c.head then
      let (line, c) := c.lineBreak
      blockBreaks indentation fuel (breaks ++ line) c
    else (breaks, c)

/-- Whether a line of the scalar starts here. -/
def atBlockLine (indentation : Nat) (c : Cursor) : Bool :=
  c.place.column == indentation + 1 && c.head != endMark

structure BlockText where
  text : List Char
  lastBreak : List Char
  breaks : List Char
  cursor : Cursor

/-- The lines in `fuel` steps; `done` holds the text so far, last character first. -/
def blockLines (folded : Bool) (indentation : Nat) :
    Nat → List Char → List Char → List Char → Cursor → BlockText
  | 0, done, line, breaks, c => ⟨done.reverse, line, breaks, c⟩
  | fuel + 1, done, line, breaks, c =>
    if c.atBlockLine indentation then
      let startsWithText := !isSpaceOrTab c.head
      let (run, c) := c.span (!isLineEnd ·)
      let done := run.reverse ++ breaks.reverse ++ done
      let (line, c) := c.lineBreak
      let (breaks, c) := blockBreaks indentation (c.rest.length + 1) [] c
      if c.atBlockLine indentation then
        let joined := folded && line == ['\n'] && startsWithText && !isSpaceOrTab c.head
        let between := if !joined then line else if breaks.isEmpty then [' '] else []
        blockLines folded indentation fuel (between.reverse ++ done) line breaks c
      else ⟨done.reverse, line, breaks, c⟩
    else ⟨done.reverse, line, breaks, c⟩

/-- The block scalar at the cursor, inside a block with so many columns of indentation. -/
def block (folded : Bool) (outer : Nat) (c : Cursor) : Except YamlFault (String × Cursor) := do
  let (header, c) ← c.next.blockHeader
  let c ← c.dropLineRest
  let fuel := c.rest.length + 1
  let least := max outer 1
  let (indentation, breaks, c) := match header.indentation with
    | some n =>
      let indentation := least + n - 1
      (indentation, blockBreaks indentation fuel [] c)
    | none =>
      let (breaks, widest, c) := blockStart fuel [] 0 c
      (max least widest, breaks, c)
  let block := blockLines folded indentation fuel [] [] breaks c
  let ending := match header.chomping with
    | .strip => []
    | .clip => block.lastBreak
    | .keep => block.lastBreak ++ block.breaks
  return (String.ofList (block.text ++ ending), block.cursor)

end Cursor

end JsonSchema.Yaml

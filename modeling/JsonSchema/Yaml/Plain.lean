import JsonSchema.Yaml.Cursor

/-!
# Reading plain scalars

A plain scalar has no quotes. It ends at a comment, at a colon that a blank follows and, between
brackets, at a mark of the collection.
-/

namespace JsonSchema.Yaml

/-- Whether a plain scalar ends in front of this character. -/
def endsPlain (inFlow : Bool) (c : Char) (rest : List Char) : Bool :=
  let after := rest.headD endMark
  isBlankOrEnd c || (c == ':' && (isBlankOrEnd after || (inFlow && isFlowMark after))) ||
    (inFlow && (c == '?' || isFlowMark c))

/-- The characters up to the end of a plain scalar or to a blank inside it. -/
def plainRun (inFlow : Bool) : List Char → List Char
  | [] => []
  | c :: rest => if endsPlain inFlow c rest then [] else c :: plainRun inFlow rest

structure PlainGap where
  text : List Char
  crossesLine : Bool
  cursor : Cursor

namespace Cursor

/-- The line breaks of empty lines in `fuel` steps; none when a document starts or ends. -/
def plainBreaks : Nat → List Char → Cursor → Option (List Char) × Cursor
  | 0, breaks, c => (some breaks, c)
  | fuel + 1, breaks, c =>
    if c.atSeparator then (none, c)
    else
      let c := c.dropSpaces
      if isLineBreak c.head then
        let (line, c) := c.lineBreak
        plainBreaks fuel (breaks ++ line) c
      else (some breaks, c)

/-- Spaces and line breaks behind a run; nothing is left of them in front of a separator. -/
def plainGap (c : Cursor) : PlainGap :=
  let (spaces, c) := c.span (· == ' ')
  if isLineBreak c.head then
    let (line, c) := c.lineBreak
    match plainBreaks (c.rest.length + 1) [] c with
    | (none, c) => ⟨[], true, c⟩
    | (some breaks, c) =>
      let text := if line != ['\n'] then line ++ breaks
        else if breaks.isEmpty then [' '] else breaks
      ⟨text, true, c⟩
  else ⟨spaces, false, c⟩

structure PlainText where
  text : List Char
  stop : Place
  crossesLine : Bool
  cursor : Cursor

/-- The runs of a plain scalar in `fuel` steps; `done` holds the text so far, last first. -/
def plainFrom (inFlow : Bool) (outer : Nat) : Nat → List Char → PlainText → PlainGap → PlainText
  | 0, _, text, _ => text
  | fuel + 1, done, text, gap =>
    let c := gap.cursor
    let run := plainRun inFlow c.rest
    if c.head == '#' || run.isEmpty then text
    else
      let done := run.reverse ++ gap.text.reverse ++ done
      let behind := skip run.length c
      let next := behind.plainGap
      let text := ⟨done.reverse, behind.place, next.crossesLine, next.cursor⟩
      if next.text.isEmpty || (!inFlow && next.cursor.place.column ≤ outer) then text
      else plainFrom inFlow outer fuel done text next

/-- The plain scalar at the cursor, inside a block whose indentation ends at the column `outer`. -/
def plain (inFlow : Bool) (outer : Nat) (c : Cursor) : PlainText :=
  plainFrom inFlow outer (c.rest.length + 1) [] ⟨[], c.place, false, c⟩ ⟨[], false, c⟩

end Cursor

end JsonSchema.Yaml

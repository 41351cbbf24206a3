import JsonSchema.Files.Path
import JsonSchema.Json.Basic
import JsonSchema.Number.Shortest
import JsonSchema.Text.Basic

/-!
# Places in a source file

A source map records at which line and column the values of a document start.
-/

namespace JsonSchema

/-- A recorded place; lines and columns count from one. Either of them may be unknown. -/
structure SourceEntry where
  line : Option Int
  column : Option Int
deriving DecidableEq, Repr, Inhabited

/-- An entry without a line and a column records nothing. -/
def SourceEntry.isBlank (entry : SourceEntry) : Bool := entry.line.isNone && entry.column.isNone

abbrev SourceMap := Members SourceEntry

structure SourceLocation where
  file : Option FilePath
  pointer : Option String
  line : Option Int
  column : Option Int
deriving DecidableEq, Repr, Inhabited

namespace SourceMap

/-- The text before the last slash; a text without a slash is its own parent. -/
def parent (pointer : String) : String :=
  match cutLastChars? '/' pointer.toList with
  | some (before, _) => String.ofList before
  | none => pointer

/-- What is recorded for exactly this pointer. -/
def recorded? (map : SourceMap) (pointer : String) : Option SourceEntry :=
  (Members.get? map pointer).filter (!·.isBlank)

/--
The entry of a pointer or of its nearest recorded parent, if the search for it ends. It does not
where it comes to a text without a slash, which is its own parent, and nothing is recorded there.
-/
def search (map : SourceMap) (pointer : String) : Option (Option SourceEntry) :=
  match map.recorded? pointer with
  | some entry => some (some entry)
  | none => if pointer == "" then some none else map |>.search (parent pointer)
partial_fixpoint

/-- As `search`; in an empty map nothing is looked for. -/
def nearest (map : SourceMap) (pointer : String) : Option (Option SourceEntry) :=
  if map.isEmpty then some none else map.search pointer

/--
Where the value at a pointer starts, or the nearest value around it. A search without an end, which
gives nothing to whoever asks for the place, counts as one that finds nothing here.
-/
def locate (map : SourceMap) (pointer : Option String) (file : Option FilePath) :
    SourceLocation :=
  match pointer.bind fun pointer => (map.nearest pointer).join with
  | some entry => { file, pointer, line := entry.line, column := entry.column }
  | none => { file, pointer, line := none, column := none }

end SourceMap

/-! ## Text -/

def colonNumber : Option Int → String
  | none => ""
  | some n => ":" ++ intText n

/-- The file with its line, and its column where the line is known. -/
def SourceLocation.filePart (location : SourceLocation) : Option String :=
  location.file.map fun file =>
    let place := match location.line with
      | none => ""
      | some line => colonNumber (some line) ++ colonNumber location.column
    "source= " ++ file.text ++ place

def SourceLocation.pointerPart (location : SourceLocation) : Option String :=
  (location.pointer.filter (· != "")).map ("pointer= " ++ ·)

/-- What is known about a place, in brackets; nothing for an unknown place. -/
def SourceLocation.text (location : SourceLocation) : String :=
  match location.filePart.toList ++ location.pointerPart.toList with
  | [] => ""
  | parts => " (" ++ " ".intercalate parts ++ ")"

end JsonSchema

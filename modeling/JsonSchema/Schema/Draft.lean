import JsonSchema.Number.Numeral
import JsonSchema.Text.CodeRanges
import JsonSchema.Text.Basic

/-!
# Drafts

A schema may declare the draft that it is written for. Without a declaration the latest draft
holds, with the older spellings still allowed; an unknown declaration falls back to it too.
-/

namespace JsonSchema

inductive Draft where
  | draft4 | draft6 | draft7 | draft2019 | draft2020
deriving DecidableEq, Repr, Inhabited

namespace Draft

def all : List Draft := [.draft4, .draft6, .draft7, .draft2019, .draft2020]

def latest : Draft := .draft2020

def name : Draft → String
  | .draft4 => "draft-04"
  | .draft6 => "draft-06"
  | .draft7 => "draft-07"
  | .draft2019 => "2019-09"
  | .draft2020 => "2020-12"

def ofName? (name : String) : Option Draft := all.find? (·.name == name)

def age : Draft → Nat
  | .draft4 => 0
  | .draft6 => 1
  | .draft7 => 2
  | .draft2019 => 3
  | .draft2020 => 4

def atLeast (draft minimum : Draft) : Bool := decide (minimum.age ≤ draft.age)

def address (draft : Draft) : String :=
  match draft with
  | .draft2019 | .draft2020 => "json-schema.org/draft/" ++ draft.name ++ "/schema"
  | _ => "json-schema.org/" ++ draft.name ++ "/schema"

/-- The spellings of a draft's identifier: with either scheme and with or without an empty
fragment. -/
def identifiers (draft : Draft) : List String :=
  ["http://", "https://"].flatMap fun scheme =>
    ["", "#"].map fun ending => scheme ++ draft.address ++ ending

/-- The draft that an identifier names; blanks around it do not count. -/
def ofIdentifier? (identifier : String) : Option Draft :=
  all.find? fun draft => draft.identifiers.contains (stripBlanks identifier)

end Draft

/-! ## Declarations -/

/-- What a schema says about its draft. -/
inductive DraftDeclaration where
  | missing
  | notAString (value : Json)
  | unknown (identifier : String)
  | known (draft : Draft) (identifier : String)
deriving Repr

namespace DraftDeclaration

instance : Inhabited DraftDeclaration := ⟨.missing⟩

/-- Reads the value of `$schema`; null counts as missing. -/
def ofJson? : Option Json → DraftDeclaration
  | none | some .null => .missing
  | some (.str identifier) =>
    match Draft.ofIdentifier? identifier with
    | some draft => .known draft identifier
    | none => .unknown identifier
  | some value => .notAString value

def draft : DraftDeclaration → Draft
  | .known draft _ => draft
  | _ => .latest

def isSupported : DraftDeclaration → Bool
  | .missing | .known _ _ => true
  | .notAString _ | .unknown _ => false

def isDeclared : DraftDeclaration → Bool
  | .missing => false
  | _ => true

def identifier? : DraftDeclaration → Option String
  | .unknown identifier | .known _ identifier => some identifier
  | .missing | .notAString _ => none

def hasText : DraftDeclaration → Bool
  | .notAString value => value.hasText
  | _ => true

def message : DraftDeclaration → String
  | .missing => "No '$schema' declared; using draft " ++ Draft.latest.name ++ " semantics."
  | .notAString value =>
    "'$schema' must be a string, got " ++ value.sortName ++ ": " ++ value.literal
  | .unknown identifier =>
    "Unsupported schema version '" ++ identifier ++ "'. Supported drafts: " ++
      ", ".intercalate (Draft.all.map (·.name)) ++ ". Falling back to draft " ++
      Draft.latest.name ++ " semantics."
  | .known draft _ => "Schema declares draft " ++ draft.name ++ "."

end DraftDeclaration

end JsonSchema

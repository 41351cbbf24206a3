import JsonSchema.Text.Basic

/-!
# The tokens of a YAML text

Line breaks and indentation become tokens of their own, which open and close the block
collections.
-/

namespace JsonSchema.Yaml

/-- An instruction in front of a document. -/
inductive Directive where
  | version (major : Nat)
  | tagHandle (handle start : String)
  | other
deriving DecidableEq, Repr

/-- A tag as it is written: a handle, which stands for the start of the tag, and the rest. -/
structure WrittenTag where
  handle : Option String
  rest : String
deriving DecidableEq, Repr

inductive Token where
  | streamEnd
  | directive (directive : Directive)
  | documentStart
  | documentEnd
  | blockSequenceStart
  | blockMappingStart
  | blockEnd
  | flowSequenceStart
  | flowSequenceEnd
  | flowMappingStart
  | flowMappingEnd
  | key
  | value
  | blockEntry
  | flowEntry
  | alias (anchor : String)
  | anchor (name : String)
  | tag (tag : WrittenTag)
  | scalar (value : String) (plain : Bool)
deriving DecidableEq, Repr, Inhabited

def Token.name : Token → String
  | .streamEnd => "<stream end>"
  | .directive _ => "<directive>"
  | .documentStart => "<document start>"
  | .documentEnd => "<document end>"
  | .blockSequenceStart => "<block sequence start>"
  | .blockMappingStart => "<block mapping start>"
  | .blockEnd => "<block end>"
  | .flowSequenceStart => "["
  | .flowSequenceEnd => "]"
  | .flowMappingStart => "\x7b"
  | .flowMappingEnd => "\x7d"
  | .key => "?"
  | .value => ":"
  | .blockEntry => "-"
  | .flowEntry => ","
  | .alias _ => "<alias>"
  | .anchor _ => "<anchor>"
  | .tag _ => "<tag>"
  | .scalar _ _ => "<scalar>"

/-- A token with the places where it starts and where it ends. -/
structure PlacedToken where
  token : Token
  start : Place
  stop : Place
deriving DecidableEq, Repr, Inhabited

end JsonSchema.Yaml

import JsonSchema.Json.Read
import JsonSchema.Number.Numeral
import JsonSchema.Text.Basic
import JsonSchema.Text.Utf8
import JsonSchema.Yaml.Fault

/-!
# Why a document cannot be read
-/

namespace JsonSchema

def JsonFault.message : JsonFault → String
  | .atRest fault _ => fault.message
  | .constant name => name ++ " is not a valid JSON number"
  | .outOfRange text => "Number " ++ text ++ " is out of range"
  | .tooManyDigits count => tooManyDigitsMessage count
  | .tooDeep => "document is nested too deeply"

/-- Where a text of so many characters is at fault, if the fault has a place. -/
def JsonFault.place? (fault : JsonFault) (cs : List Char) : Option Place :=
  match fault with
  | .atRest _ left => some (Place.after (cs.take (cs.length - left)))
  | _ => none

inductive ParseFault where
  | json (fault : JsonFault) (place : Option Place)
  | encoding (fault : DecodingFault)
  | yaml (fault : YamlFault)
deriving Repr

namespace ParseFault

def place? : ParseFault → Option Place
  | .json _ place => place
  | .encoding _ => none
  | .yaml fault => fault.place?

def summary : ParseFault → String
  | .json fault _ => "Invalid JSON: " ++ fault.message
  | .encoding fault => "Input is not valid UTF-8: " ++ fault.reason
  | .yaml fault => fault.summary

def placeText : Option Place → String
  | none => ""
  | some place =>
    " (line " ++ natText place.line ++ ", column " ++ natText place.column ++ ")"

def message (fault : ParseFault) : String := fault.summary ++ placeText fault.place?

end ParseFault

/-! ## JSON documents -/

namespace Json

def parse (text : String) : Except ParseFault Json :=
  match Json.read text with
  | .ok value => .ok value
  | .error fault => .error (.json fault (fault.place? text.toList))

/-- Reads a JSON document from UTF-8, behind an optional byte order mark. -/
def parseBytes (bytes : Bytes) : Except ParseFault Json :=
  match decodeUtf8 (dropByteOrderMark bytes) with
  | .ok text => parse text
  | .error error => .error (.encoding error.fault)

end Json

end JsonSchema

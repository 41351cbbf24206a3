import JsonSchema.Yaml.Fault

/-!
# The characters of a YAML text

A text holds printable characters, tabs and line ends. Bytes are UTF-16 when they start with one
of its byte order marks, and UTF-8 otherwise.
-/

namespace JsonSchema

/-- The codes of the characters that a text may hold. -/
def yamlCharacters : CodeRanges :=
  #[(9, 10), (13, 13), (0x20, 0x7E), (0x85, 0x85), (0xA0, 0xD7FF), (0xE000, 0xFFFD),
    (0x10000, 0x10FFFF)]

def isYamlCharacter (c : Char) : Bool := yamlCharacters.holds c.toNat

namespace YamlSource

/-- The characters of a text, which has to hold none but the allowed ones. -/
def checked (source : String) (text : String) : Except YamlFault (List Char) :=
  let cs := text.toList
  match cs.findIdx? (!isYamlCharacter ·) with
  | none => .ok cs
  | some position =>
    let code := (cs.getD position ' ').toNat
    .error (.malformed
      (.unacceptable code "special characters are not allowed" source position) none)

def ofText (text : String) : Except YamlFault (List Char) := checked "<unicode string>" text

def ofBytes (bytes : Bytes) : Except YamlFault (List Char) :=
  let decoded := match bytes with
    | 0xFF :: 0xFE :: _ => decodeUtf16 .littleEndian bytes
    | 0xFE :: 0xFF :: _ => decodeUtf16 .bigEndian bytes
    | _ => decodeUtf8 bytes
  match decoded with
  | .ok text => checked "<byte string>" text
  | .error error => .error (.malformed
      (.unacceptable error.byte.toNat error.fault.reason "<byte string>" error.position) none)

end YamlSource

end JsonSchema

import JsonSchema.Json.Basic

/-!
# The text of a document

A document is written on one line or with one item a line. Strings keep every character that
JSON allows in them, unless the style asks for ASCII alone.
-/

namespace JsonSchema

/-! ## Strings -/

def hexDigit (n : Nat) : Char := (Nat.toDigits 16 n).headD '0'

def hex4 (n : Nat) : String :=
  String.ofList [hexDigit (n / 4096 % 16), hexDigit (n / 256 % 16), hexDigit (n / 16 % 16),
    hexDigit (n % 16)]

/-- A character as escapes of its UTF-16 units. -/
def unitEscapes (c : Char) : String :=
  let code := c.toNat
  if code < 0x10000 then "\\u" ++ hex4 code
  else
    let above := code - 0x10000
    "\\u" ++ hex4 (0xD800 + above / 1024) ++ "\\u" ++ hex4 (0xDC00 + above % 1024)

def escapeChar (asciiOnly : Bool) (c : Char) : String :=
  if c == '"' then "\\\""
  else if c == '\\' then "\\\\"
  else if c == '\n' then "\\n"
  else if c == '\r' then "\\r"
  else if c == '\t' then "\\t"
  else if c.toNat == 8 then "\\b"
  else if c.toNat == 12 then "\\f"
  else if c.toNat < 32 || (asciiOnly && decide (126 < c.toNat)) then unitEscapes c
  else c.toString

def quoteString (asciiOnly : Bool) (s : String) : String :=
  "\"" ++ String.join (s.toList.map (escapeChar asciiOnly)) ++ "\""

/-! ## Values -/

/-- How a document is laid out. Without an indent it stands on one line. -/
structure TextStyle where
  indent : Option Nat := none
  asciiOnly : Bool := false

/-- The start of a new line at a nesting level; nothing where the text stays on one line. -/
def TextStyle.lineStart (style : TextStyle) (level : Nat) : String :=
  match style.indent with
  | none => ""
  | some width => "\n" ++ String.ofList (List.replicate (width * level) ' ')

/-- What stands between two items, before the start of the next line. -/
def TextStyle.separator (style : TextStyle) : String :=
  match style.indent with
  | none => ", "
  | some _ => ","

def TextStyle.enclose (style : TextStyle) (level : Nat) (opening closing : String)
    (items : List String) : String :=
  let line := style.lineStart (level + 1)
  opening ++ line ++ (style.separator ++ line).intercalate items ++ style.lineStart level ++ closing

namespace Json

mutual

def textIn (style : TextStyle) (level : Nat) : Json → String
  | .null => "null"
  | .bool true => "true"
  | .bool false => "false"
  | .num n => n.text
  | .str s => quoteString style.asciiOnly s
  | .arr [] => "[]"
  | .arr (item :: items) => style.enclose level "[" "]" (itemTexts style level (item :: items))
  | .obj [] => "\x7b\x7d"
  | .obj (member :: members) =>
    style.enclose level "\x7b" "\x7d" (memberTexts style level (member :: members))

def itemTexts (style : TextStyle) (level : Nat) : List Json → List String
  | [] => []
  | item :: items => textIn style (level + 1) item :: itemTexts style level items

def memberTexts (style : TextStyle) (level : Nat) : List (String × Json) → List String
  | [] => []
  | (name, value) :: members =>
    (quoteString style.asciiOnly name ++ ": " ++ textIn style (level + 1) value) ::
      memberTexts style level members

end

def text (value : Json) : String := textIn {} 0 value

end Json

end JsonSchema

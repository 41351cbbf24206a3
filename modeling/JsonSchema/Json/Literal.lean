import JsonSchema.Json.Basic
import JsonSchema.Json.Text
import JsonSchema.Text.Printable

/-!
# Values in messages

A message names a wrong value by its literal: strings stand between single quotes where they can,
and characters that cannot be printed are escaped.
-/

namespace JsonSchema

def hexDigits (count n : Nat) : String :=
  String.ofList ((List.range count).reverse.map fun k => hexDigit (n / Nat.pow 16 k % 16))

/-- The escape of a character by its code, in two, four or eight digits. -/
def codeEscape (code : Nat) : String :=
  if code < 0x100 then "\\x" ++ hexDigits 2 code
  else if code < 0x10000 then "\\u" ++ hexDigits 4 code
  else "\\U" ++ hexDigits 8 code

def literalChar (quote c : Char) : String :=
  if c == quote then "\\" ++ c.toString
  else if c == '\\' then "\\\\"
  else if c == '\n' then "\\n"
  else if c == '\r' then "\\r"
  else if c == '\t' then "\\t"
  else if isPrintable c then c.toString
  else codeEscape c.toNat

/-- A string as a literal. Double quotes enclose it only when it holds single ones alone. -/
def stringLiteral (s : String) : String :=
  let quote := if s.toList.contains '\x27' && !s.toList.contains '"' then '"' else '\x27'
  quote.toString ++ String.join (s.toList.map (literalChar quote)) ++ quote.toString

namespace Json

mutual

def literal : Json → String
  | .null => "None"
  | .bool true => "True"
  | .bool false => "False"
  | .num n => n.text
  | .str s => stringLiteral s
  | .arr items => "[" ++ ", ".intercalate (itemLiterals items) ++ "]"
  | .obj members => "\x7b" ++ ", ".intercalate (memberLiterals members) ++ "\x7d"

def itemLiterals : List Json → List String
  | [] => []
  | item :: items => literal item :: itemLiterals items

def memberLiterals : List (String × Json) → List String
  | [] => []
  | (name, value) :: members =>
    (stringLiteral name ++ ": " ++ literal value) :: memberLiterals members

end

/-- A value as plain text: a string stands for itself, anything else for its literal. -/
def plain : Json → String
  | .str s => s
  | value => value.literal

/-- The name that messages use for the sort of a value. -/
def sortName : Json → String
  | .null => "NoneType"
  | .bool _ => "bool"
  | .num (.int _) => "int"
  | .num (.float _) => "float"
  | .str _ => "str"
  | .arr _ => "list"
  | .obj _ => "dict"

end Json

end JsonSchema

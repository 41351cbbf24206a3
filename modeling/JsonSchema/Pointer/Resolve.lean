import JsonSchema.Number.Numeral
import JsonSchema.Pointer.Basic
import JsonSchema.Text.Basic
import JsonSchema.Uri.Percent

/-!
# Following a pointer

A pointer is cut into tokens, and the tokens lead from the root of a document to one of its
values. A pointer behind a `#` is percent-encoded.
-/

namespace JsonSchema

inductive PointerFault where
  | missingSlash (pointer : String)
  | nameNotFound (token : String)
  | invalidIndex (token : String)
  | indexOutOfRange (index : Nat)
  | scalar (token : String)
  /-- A token of digit characters that are not all decimal digits. -/
  | notANumeral (token : String)
  | tooManyDigits (count : Nat)
deriving DecidableEq, Repr

def PointerFault.message : PointerFault → String
  | .missingSlash pointer => "JSON pointer must start with '/': '" ++ pointer ++ "'"
  | .nameNotFound token => "Key '" ++ token ++ "' not found"
  | .invalidIndex token => "Invalid array index '" ++ token ++ "'"
  | .indexOutOfRange index => "Array index " ++ natText index ++ " out of range"
  | .scalar token => "Cannot descend into scalar with '" ++ token ++ "'"
  | .notANumeral token => notAnIntegerMessage 10 token
  | .tooManyDigits count => tooManyDigitsMessage count

/-- Whether the fault means that the document has no such place. -/
def PointerFault.isLookup : PointerFault → Bool
  | .notANumeral _ | .tooManyDigits _ => false
  | _ => true

namespace Pointer

def ofChars (cs : List Char) : Except PointerFault (List String) :=
  match cs with
  | [] => .ok []
  | '/' :: rest => .ok ((splitChars '/' rest).map fun part => String.ofList (unescapeChars part))
  | cs => .error (.missingSlash (String.ofList cs))

/-- The tokens of a pointer, which may stand behind a `#`. -/
def split (pointer : String) : Except PointerFault (List String) :=
  match pointer.toList with
  | '#' :: rest => ofChars (Uri.percentDecodeChars rest)
  | cs => ofChars cs

/-- The index that a token names: a decimal numeral without a leading zero. -/
def index (token : String) : Except PointerFault Nat :=
  let cs := token.toList
  if cs.isEmpty || !cs.all isDigitCharacter || (cs.head? == some '0' && decide (1 < cs.length)) then
    .error (.invalidIndex token)
  else
    match decimalNumeral? cs with
    | none => .error (.notANumeral token)
    | some n =>
      if maxIntegerDigits < cs.length then .error (.tooManyDigits cs.length) else .ok n

def descend (value : Json) (token : String) : Except PointerFault Json :=
  match value with
  | .obj members =>
    match Members.get? members token with
    | some member => .ok member
    | none => .error (.nameNotFound token)
  | .arr items => do
    let i ← index token
    match items[i]? with
    | some item => .ok item
    | none => .error (.indexOutOfRange i)
  | _ => .error (.scalar token)

def resolve (document : Json) (tokens : List String) : Except PointerFault Json :=
  tokens.foldlM descend document

end Pointer

end JsonSchema

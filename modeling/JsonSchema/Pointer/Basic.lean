import JsonSchema.Json.Basic
import JsonSchema.Number.Shortest

/-!
# JSON pointers

A pointer names a place in a document by the member names and indices that lead to it. In text a
slash precedes each of them, and the characters `~` and `/` of a name are escaped.
-/

namespace JsonSchema

/-- One step into a document. -/
inductive Segment where
  | name (name : String)
  | index (index : Int)
deriving DecidableEq, Repr, Inhabited

/-- The way from the root of a document to one of its values. -/
abbrev Path := List Segment

namespace Pointer

/-! ## Writing -/

def escapeChars : List Char → List Char
  | [] => []
  | '~' :: rest => '~' :: '0' :: escapeChars rest
  | '/' :: rest => '~' :: '1' :: escapeChars rest
  | c :: rest => c :: escapeChars rest

def escape (token : String) : String := String.ofList (escapeChars token.toList)

/-- A segment as the token of a pointer. -/
def token : Segment → String
  | .name name => name
  | .index index => intText index

def join (base : String) (tokens : List String) : String :=
  base ++ String.join (tokens.map fun token => "/" ++ escape token)

def ofTokens (tokens : List String) : String := join "" tokens

end Pointer

/-- The pointer of a path; the empty path has the empty pointer. -/
def Path.pointer (path : Path) : String := Pointer.ofTokens (path.map Pointer.token)

namespace Pointer

/-! ## Reading -/

def unescapeChars : List Char → List Char
  | [] => []
  | '~' :: '1' :: rest => '/' :: unescapeChars rest
  | '~' :: '0' :: rest => '~' :: unescapeChars rest
  | c :: rest => c :: unescapeChars rest

def unescape (token : String) : String := String.ofList (unescapeChars token.toList)

end Pointer

end JsonSchema

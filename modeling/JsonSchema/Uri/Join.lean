import JsonSchema.Uri.Basic

/-!
# Resolving a reference against a base

A reference with a scheme of another kind, or with its own authority, stands for itself. Any
other one takes the scheme, the authority and the directory of the base.
-/

namespace JsonSchema.Uri

/-- Segments without the empty ones, the first and the last apart. -/
def dropEmptyInner (segments : List Chars) : List Chars :=
  match segments with
  | [] => []
  | first :: rest =>
    first :: (rest.dropLast.filter (!·.isEmpty) ++ rest.drop (rest.length - 1))

def isDot (segment : Chars) : Bool := segment == ['.']

def isDoubleDot (segment : Chars) : Bool := segment == ['.', '.']

/-- Follows the dots: one stays where it is, two go back by one segment. -/
def followDots (segments : List Chars) : List Chars :=
  let followed := segments.foldl
    (fun done segment =>
      if isDoubleDot segment then done.dropLast
      else if isDot segment then done
      else done ++ [segment]) []
  let endsInDots := match segments.getLast? with
    | some last => isDot last || isDoubleDot last
    | none => false
  if endsInDots then followed ++ [[]] else followed

def joinSegments : List Chars → Chars
  | [] => []
  | [segment] => segment
  | segment :: rest => segment ++ '/' :: joinSegments rest

/-- The path of a reference, seen from the path of its base. -/
def joinPaths (base path : Chars) : Chars :=
  let own := splitChars '/' path
  let segments :=
    if path.head? == some '/' then own
    else
      let directory := splitChars '/' base
      let directory := if directory.getLast? == some [] then directory else directory.dropLast
      dropEmptyInner (directory ++ own)
  let joined := joinSegments (followDots segments)
  if joined.isEmpty then ['/'] else joined

/-- The URI that a reference means when it stands in a document with this base. -/
def join (base reference : String) : Except Fault String := do
  if base == "" then return reference
  if reference == "" then return base
  let origin ← split "" base.toList
  let given ← split origin.scheme reference.toList
  if given.scheme != origin.scheme || !relativeSchemes.contains given.scheme then return reference
  let takesAuthority := authoritySchemes.contains given.scheme
  let target := cutParameters given.scheme given.path
  if takesAuthority && !given.authority.isEmpty then
    return String.ofList { given with path := target.chars }.chars
  let authority := if takesAuthority then origin.authority else given.authority
  let source := cutParameters origin.scheme origin.path
  if target.path.isEmpty && target.parameters.isEmpty then
    let query := if given.query.isEmpty then origin.query else given.query
    return String.ofList { given with authority, path := source.chars, query }.chars
  let path := joinPaths source.path target.path
  return String.ofList { given with authority, path := { target with path }.chars }.chars

/-- The URI that a reference means, without its fragment, and the fragment. -/
def locate (base reference : String) : Except Fault (String × String) := do
  defragment (← join base reference)

end JsonSchema.Uri

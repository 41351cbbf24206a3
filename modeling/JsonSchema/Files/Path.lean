import JsonSchema.Text.Basic

/-!
# File paths

A path is kept in its normal form: without empty parts and without parts that are a single dot.
Two dots stay, as they may mean another directory when links are about.
-/

namespace JsonSchema

/-- How a path starts: two slashes in front are another root than one slash. -/
inductive PathRoot where
  | relative | root | doubleRoot
deriving DecidableEq, Repr, Inhabited

structure FilePath where
  start : PathRoot
  parts : List String
deriving DecidableEq, Repr, Inhabited

namespace FilePath

def rootOf (cs : List Char) : PathRoot :=
  match (cs.takeWhile (· == '/')).length with
  | 0 => .relative
  | 2 => .doubleRoot
  | _ => .root

def isProperPart (part : String) : Bool := part != "" && part != "."

def ofText (text : String) : FilePath :=
  ⟨rootOf text.toList, (splitText '/' text).filter isProperPart⟩

def isAbsolute (path : FilePath) : Bool := path.start != .relative

def rootText : PathRoot → String
  | .relative => ""
  | .root => "/"
  | .doubleRoot => "//"

def text (path : FilePath) : String :=
  let body := rootText path.start ++ "/".intercalate path.parts
  if body == "" then "." else body

/-- The last part; a root and the path of a single dot have none. -/
def name (path : FilePath) : String := path.parts.getLast?.getD ""

/-- A path inside another one; an absolute path stays as it is. -/
def append (base path : FilePath) : FilePath :=
  if path.isAbsolute then path else ⟨base.start, base.parts ++ path.parts⟩

/-- The parts of an absolute path, with two dots going back to the part before. -/
def normalParts (path : FilePath) : List String :=
  (path.parts.foldl (fun done part => if part == ".." then done.drop 1 else part :: done)
    []).reverse

/-- The parts by which paths are ordered: a root is a part of its own. -/
def orderKey (path : FilePath) : List String :=
  if path.isAbsolute then rootText path.start :: path.parts else path.parts

/-- Part by part, each by its code points; a directory comes before what is in it. -/
def order (a b : FilePath) : Ordering := compareKeys a.orderKey b.orderKey
where
  compareKeys : List String → List String → Ordering
    | [], [] => .eq
    | [], _ :: _ => .lt
    | _ :: _, [] => .gt
    | a :: as, b :: bs => (compare a b).then (compareKeys as bs)

/-- The ending of the last part from its last point on; a point at either end starts none. -/
def suffix (path : FilePath) : String :=
  match cutLastChars? '.' path.name.toList with
  | some (before, after) =>
    if before.isEmpty || after.isEmpty then "" else String.ofList ('.' :: after)
  | none => ""

end FilePath

end JsonSchema

import JsonSchema.Files.Path
import JsonSchema.Text.Utf8

/-!
# Trees of files

A run sees the files that it needs as a tree, and a working directory in it. Every entry of the tree
is listed under the parts of its absolute path, and so is every directory around it.
-/

namespace JsonSchema

inductive FileEntry where
  | file (content : Bytes)
  | directory
  /-- An entry that is neither a file nor a directory, such as a device. -/
  | special
deriving DecidableEq, Repr

/-- The parts of an absolute path without two dots in it. -/
abbrev Location := List String

structure FileTree where
  workingDirectory : Location
  entries : List (Location × FileEntry)
deriving Repr

namespace FileTree

/-- The entry at a location; the root is always a directory. -/
def entryAt? (tree : FileTree) (location : Location) : Option FileEntry :=
  if location.isEmpty then some .directory else tree.entries.lookup location

def put (tree : FileTree) (location : Location) (entry : FileEntry) : FileTree :=
  { tree with entries := (location, entry) :: tree.entries.filter (·.1 != location) }

/-- Makes the directories above a location that are missing. -/
def makeParents (tree : FileTree) (location : Location) : FileTree :=
  (List.range location.length).foldl (fun tree length =>
    let parent := location.take length
    if (tree.entryAt? parent).isSome then tree else tree.put parent .directory) tree

/-- The location that a path names, where every step of it leads through a directory. -/
def follow (tree : FileTree) (here : Location) : List String → Option Location
  | [] => some here
  | part :: rest =>
    if tree.entryAt? here = some .directory then
      follow tree (if part == ".." then here.dropLast else here ++ [part]) rest
    else none

def startOf (tree : FileTree) (path : FilePath) : Location :=
  if path.isAbsolute then [] else tree.workingDirectory

def location? (tree : FileTree) (path : FilePath) : Option Location :=
  tree.follow (tree.startOf path) path.parts

def entry? (tree : FileTree) (path : FilePath) : Option FileEntry :=
  (tree.location? path).bind tree.entryAt?

/-- The absolute path, whether or not something is there. -/
def resolve (tree : FileTree) (path : FilePath) : FilePath :=
  ⟨.root, FilePath.normalParts ⟨.root, tree.startOf path ++ path.parts⟩⟩

def write (tree : FileTree) (path : FilePath) (entry : FileEntry) : FileTree :=
  let location := (tree.resolve path).parts
  (tree.makeParents location).put location entry

/-- The directories that a path leads through. -/
def stepsOf (path : FilePath) : List FilePath :=
  (List.range path.parts.length).map fun length => ⟨path.start, path.parts.take length⟩

/-- Puts an entry where a path names it, and directories where the path leads through. -/
def writeReached (tree : FileTree) (path : FilePath) (entry : FileEntry) : FileTree :=
  ((stepsOf path).foldl (·.write · .directory) tree).write path entry

def withWorkingDirectory (location : Location) : FileTree :=
  let tree : FileTree := ⟨location, []⟩
  let device : FilePath := ⟨.root, ["dev", "null"]⟩
  (((tree.makeParents location).put location .directory).write device .special)

def inside? (directory location : Location) : Option (List String) :=
  if directory.isPrefixOf location && location.length != directory.length then
    some (location.drop directory.length)
  else none

/-- The paths of all entries in a directory and in those below it. -/
def pathsBelow (tree : FileTree) (directory : FilePath) : List FilePath :=
  match tree.location? directory with
  | none => []
  | some location => tree.entries.filterMap fun entry =>
    (inside? location entry.1).map fun parts => directory.append ⟨.relative, parts⟩

end FileTree

/-! ## Text files -/

/-- The text with every line end as a line feed. -/
def unifyLineEnds : List Char → List Char
  | '\r' :: '\n' :: rest => '\n' :: unifyLineEnds rest
  | '\r' :: rest => '\n' :: unifyLineEnds rest
  | c :: rest => c :: unifyLineEnds rest
  | [] => []

/-- The text of a file in UTF-8, behind an optional byte order mark. -/
def fileText? (content : Bytes) : Option String :=
  match decodeUtf8 (dropByteOrderMark content) with
  | .ok text => some (String.ofList (unifyLineEnds text.toList))
  | .error _ => none

end JsonSchema

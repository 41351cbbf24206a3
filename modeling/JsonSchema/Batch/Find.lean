import JsonSchema.Files.Tree
import JsonSchema.Log

/-!
# Finding documents

A directory stands for everything in it and below it that has the name of a document.
-/

namespace JsonSchema

def documentSuffixes : List String := [".json", ".yaml", ".yml"]

def hasDocumentName (path : FilePath) : Bool := documentSuffixes.any (endsWithText · path.name)

/-- What was found: paths, and records about those that stand for nothing. -/
structure Found where
  paths : List FilePath
  log : Log

namespace Found

def loggerName : String := "schema_validator.batch"

def warn (message : String) (path : FilePath) : Found :=
  ⟨[], [⟨loggerName, LogLevel.warning, message ++ ": " ++ path.text⟩]⟩

def ofPath (tree : FileTree) (path : FilePath) : Found :=
  match tree.entry? path with
  | none => warn "Path does not exist" path
  | some (.file _) => ⟨[path], []⟩
  | some .directory => ⟨(tree.pathsBelow path).filter hasDocumentName, []⟩
  | some .special => warn "Path is neither file nor directory" path

/-- A sorted list with each of its items once. -/
def once : List FilePath → List FilePath
  | a :: b :: rest => if a == b then once (b :: rest) else a :: once (b :: rest)
  | paths => paths

/-- The documents that the paths stand for, in order and each of them once. -/
def ofPaths (tree : FileTree) (paths : List FilePath) : Found :=
  let found := paths.map (ofPath tree)
  ⟨once ((found.flatMap (·.paths)).mergeSort fun a b => (a.order b).isLE),
    found.flatMap (·.log)⟩

end Found

end JsonSchema

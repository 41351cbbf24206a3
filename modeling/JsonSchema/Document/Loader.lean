import JsonSchema.Document.Yaml
import JsonSchema.Files.Tree
import JsonSchema.Log

/-!
# Loading documents

Files whose name has one of the YAML endings hold YAML, and all others JSON. A loader may keep the
documents that it has read, and their source maps; a document is found again under the path that it
was read from, whatever has become of the file.
-/

namespace JsonSchema

inductive LoadFault where
  | notFound (path : FilePath)
  | notAFile (path : FilePath)
  | notText (path : FilePath)
  | parse (fault : ParseFault)
deriving Repr

namespace LoadFault

def message : LoadFault → String
  | .notFound path => "File not found: " ++ path.text
  | .notAFile path => "Path is not a file: " ++ path.text
  | .notText path => "File is not valid UTF-8: " ++ path.text
  | .parse fault => fault.message

/-- Whether the input is at fault; the text of a scalar that does not fit its tag stops a run. -/
def isOfInput : LoadFault → Bool
  | .parse (.yaml fault) => fault.isOfDocument
  | _ => true

end LoadFault

def yamlSuffixes : List String := [".yaml", ".yml"]

def FilePath.isYaml (path : FilePath) : Bool := yamlSuffixes.contains (lowerAscii path.suffix)

def Json.parseDocument (isYaml : Bool) (text : String) : Except ParseFault Json :=
  if isYaml then parseYaml text else parse text

namespace FileTree

def readText (tree : FileTree) (path : FilePath) : Except LoadFault String :=
  match tree.entry? path with
  | none => .error (.notFound path)
  | some (.file content) =>
    match fileText? content with
    | some text => .ok text
    | none => .error (.notText path)
  | some _ => .error (.notAFile path)

end FileTree

/-- A document with the places of its values. -/
structure LocatedDocument where
  document : Json
  map : SourceMap

/-- The documents that have been read, and the source maps of those that were asked for. -/
structure DocumentLoader where
  cacheEnabled : Bool
  documents : List (FilePath × Json)
  maps : List (FilePath × SourceMap)

/-- What loading comes to: a result, the loader after it, and the records of it. -/
structure Loaded (α : Type) where
  result : Except LoadFault α
  loader : DocumentLoader
  log : Log

namespace DocumentLoader

def empty (cacheEnabled : Bool) : DocumentLoader := ⟨cacheEnabled, [], []⟩

def clear (loader : DocumentLoader) : DocumentLoader := empty loader.cacheEnabled

def loggerName : String := "schema_validator.models.parsing.document_loader"

def record (message : String) (path : FilePath) : Log :=
  [⟨loggerName, LogLevel.debug, message ++ ": " ++ path.text⟩]

def keepDocument (loader : DocumentLoader) (path : FilePath) (document : Json) : DocumentLoader :=
  if loader.cacheEnabled then { loader with documents := (path, document) :: loader.documents }
  else loader

def keepMap (loader : DocumentLoader) (path : FilePath) (map : SourceMap) : DocumentLoader :=
  if loader.cacheEnabled then { loader with maps := (path, map) :: loader.maps } else loader

def read (tree : FileTree) (path : FilePath) : Except LoadFault Json := do
  (Json.parseDocument path.isYaml (← tree.readText path)).mapError .parse

/-- Reads a document and the places of its values. -/
def readLocated (tree : FileTree) (path : FilePath) : Except LoadFault LocatedDocument := do
  let text ← tree.readText path
  let document ← (Json.parseDocument path.isYaml text).mapError .parse
  let map ← (SourceMap.ofText text).mapError fun fault => .parse (.yaml (.scalar fault))
  return ⟨document, map⟩

def load (loader : DocumentLoader) (tree : FileTree) (path : FilePath) : Loaded Json :=
  match loader.documents.lookup path with
  | some document => ⟨.ok document, loader, record "Loading document from cache" path⟩
  | none =>
    let log := record "Loading document" path
    match read tree path with
    | .ok document => ⟨.ok document, loader.keepDocument path document, log⟩
    | .error fault => ⟨.error fault, loader, log⟩

def loadLocated (loader : DocumentLoader) (tree : FileTree) (path : FilePath) :
    Loaded LocatedDocument :=
  match loader.documents.lookup path, loader.maps.lookup path with
  | some document, some map =>
    ⟨.ok ⟨document, map⟩, loader, record "Loading document (with source) from cache" path⟩
  | _, _ =>
    let log := record "Loading document (with source)" path
    match readLocated tree path with
    | .ok located =>
      ⟨.ok located, (loader.keepDocument path located.document).keepMap path located.map, log⟩
    | .error fault => ⟨.error fault, loader, log⟩

end DocumentLoader

end JsonSchema

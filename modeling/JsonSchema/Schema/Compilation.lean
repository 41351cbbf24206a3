import JsonSchema.Log
import JsonSchema.Schema.Keyword
import JsonSchema.Settings
import JsonSchema.Uri.Join

/-!
# The state of a compilation

A compilation collects nodes and remembers where it has been: which documents it has taken in,
which locations have a node, which anchors are declared and which references wait for their
target.
-/

namespace JsonSchema

/-! ## Options and state -/

structure CompileOptions where
  maxDepth : Int
  strict : Bool
  /-- The documents that a reference may name, by their keys. -/
  registry : Members Json

structure SourceDocument where
  key : String
  content : Json
  /-- The URI that references in it are resolved against. -/
  base : String
  declaration : DraftDeclaration

/-- A reference that waits for its target. -/
structure PendingRef where
  node : NodeId
  ref : String
  key : String

structure Compilation where
  /-- The documents by key, the newest first. -/
  documents : Members SourceDocument := []
  /-- The keys of documents by URI, the newest first. -/
  aliases : Members String := []
  /-- The nodes by index; a node that is being read has none yet. -/
  nodes : Array (Option SchemaNode) := #[]
  /-- The location of each node, in the order of indices. -/
  locations : Array String := #[]
  /-- The nodes of anchors by document key and name, the newest first. -/
  anchors : List ((String × String) × NodeId) := []
  pending : List PendingRef := []
  targets : List (NodeId × NodeId) := []
  warnings : List String := []
  log : Log := []

/-- A step of a compilation. What was recorded before a fault stays recorded. -/
abbrev CompileM := ExceptT CompileFault (StateM Compilation)

/-! ## Locations -/

/-- The location of the value at a pointer in a document. -/
def locationOf (key pointer : String) : String := key ++ "#" ++ pointer

def Compilation.nodeAt? (c : Compilation) (location : String) : Option NodeId :=
  c.locations.idxOf? location

def Compilation.locationAt (c : Compilation) (id : NodeId) : String := (c.locations[id]?).getD ""

/-! ## Documents that were taken in -/

def Compilation.contentOf (c : Compilation) (key : String) : Json :=
  ((Members.get? c.documents key).map (·.content)).getD .null

/-- The URI that references in the document with this key are resolved against. -/
def Compilation.baseOf (c : Compilation) (key : String) : String :=
  ((Members.get? c.documents key).map (·.base)).getD ""

def Compilation.declarationOf (c : Compilation) (key : String) : DraftDeclaration :=
  ((Members.get? c.documents key).map (·.declaration)).getD .missing

/-! ## Records -/

def compilerLogger : String := "schema_validator.compiler.schema_compiler"

def compilerRecord (level : Int) (message : String) : LogRecord := ⟨compilerLogger, level, message⟩

namespace CompileM

def record (level : Int) (message : String) : CompileM Unit :=
  modify fun c => { c with log := c.log ++ [compilerRecord level message] }

def warn (message : String) : CompileM Unit := do
  record LogLevel.warning message
  modify fun c => { c with warnings := c.warnings ++ [message] }

/-- Takes over an outcome whose fault is of another type. -/
def lift {ε α : Type} (fault : ε → CompileFault) (outcome : Except ε α) : CompileM α :=
  match outcome with
  | .ok a => pure a
  | .error e => throw (fault e)

/-! ## Nodes -/

/-- Takes the next index for a location. -/
def reserve (location : String) : CompileM NodeId := do
  let c ← get
  set { c with nodes := c.nodes.push none, locations := c.locations.push location }
  return c.nodes.size

def place (node : SchemaNode) : CompileM Unit :=
  modify fun c => { c with nodes := c.nodes.set! node.id (some node) }

/-- Declares names for a node; the last of them counts as the newest. -/
def declareAnchors (key : String) (names : List String) (id : NodeId) : CompileM Unit :=
  modify fun c =>
    { c with anchors := (names.map fun name => ((key, name), id)).reverse ++ c.anchors }

/-- Lets a node's reference, if it has one, wait for its target. -/
def postpone (id : NodeId) (ref : Option String) (key : String) : CompileM Unit :=
  modify fun c => { c with pending := c.pending ++ ref.toList.map fun ref => ⟨id, ref, key⟩ }

/-! ## Documents -/

/-- The URI that a document declares for itself, seen from its key. -/
def declaredBase (key : String) (document : Json) : Except Uri.Fault String :=
  match (document.member? "$id").bind Json.string? with
  | none => .ok ""
  | some id => (Uri.locate key id).map (·.1)

def checkDraft (options : CompileOptions) (key : String) (document : Json) :
    CompileM DraftDeclaration := do
  let raw := document.member? "$schema"
  let declaration := DraftDeclaration.ofJson? raw
  if declaration.isSupported then
    record LogLevel.debug declaration.message
    return declaration
  else if !declaration.hasText then
    throw .noText
  else if options.strict then
    throw (.unsupportedDraft (raw.getD .null).plain (locationOf key "/$schema"))
  else
    warn declaration.message
    return declaration

/-- The URI that references in a document are resolved against; without a declared one, its key. -/
def documentBase (key declared : String) : String := if declared == "" then key else declared

/-- The URIs that lead to a document: its key, and the one that it declares for itself. -/
def ownAliases (key declared : String) : Members String :=
  if declared == "" then [(key, key)] else [(declared, key), (key, key)]

/-- Takes in a document under a key. -/
def addDocument (options : CompileOptions) (key : String) (document : Json) : CompileM Unit := do
  let declared ← lift .uri (declaredBase key document)
  modify fun c => { c with aliases := ownAliases key declared ++ c.aliases }
  let declaration ← checkDraft options key document
  modify fun c => { c with
    documents := (key, {
      key, content := document, base := documentBase key declared, declaration }) :: c.documents }

end CompileM

end JsonSchema

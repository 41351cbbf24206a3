import JsonSchema.Yaml.Event
import JsonSchema.Yaml.Implicit
import JsonSchema.Yaml.Source

/-!
# The nodes of a document

The events of a document make a graph: an alias is one more way to the node that it names, and a
collection may hold itself. Nodes are numbered in the order in which they start.
-/

namespace JsonSchema.Yaml

abbrev YamlId := Nat

abbrev Entry := YamlId × YamlId

inductive Content where
  | scalar (text : String)
  | sequence (items : List YamlId)
  | mapping (entries : List Entry)
deriving DecidableEq, Repr, Inhabited

def Content.kind : Content → YamlNodeKind
  | .scalar _ => .scalar
  | .sequence _ => .sequence
  | .mapping _ => .mapping

structure YamlNode where
  tag : String
  place : Place
  content : Content
deriving DecidableEq, Repr, Inhabited

def YamlNode.kind (node : YamlNode) : YamlNodeKind := node.content.kind

structure YamlGraph where
  nodes : Array YamlNode
deriving Inhabited

namespace YamlGraph

def empty : YamlGraph := ⟨#[]⟩

def nextId (g : YamlGraph) : YamlId := g.nodes.size

def push (g : YamlGraph) (node : YamlNode) : YamlGraph := ⟨g.nodes.push node⟩

def node (g : YamlGraph) (id : YamlId) : YamlNode := g.nodes.getD id default

def setNode (g : YamlGraph) (id : YamlId) (node : YamlNode) : YamlGraph :=
  ⟨g.nodes.setIfInBounds id node⟩

def setContent (g : YamlGraph) (id : YamlId) (content : Content) : YamlGraph :=
  g.setNode id { g.node id with content }

def entries (g : YamlGraph) (id : YamlId) : List Entry :=
  match (g.node id).content with
  | .mapping entries => entries
  | _ => []

end YamlGraph

/-! ## Building the graph -/

/-- A collection whose end has not come; `children` holds its nodes so far, last first. -/
structure OpenNode where
  id : YamlId
  kind : YamlNodeKind
  children : List YamlId

/-- The graph so far, its open collections, innermost first, and the anchors. -/
structure Builder where
  graph : YamlGraph
  opened : List OpenNode
  anchors : List (String × YamlId)
  root : Option YamlId

/--
A document may nest its collections so deep. As `jsonDepthLimit`, this number stands for a stack
that ends near it.
-/
def yamlDepthLimit : Nat := 480

def tooDeep : YamlFault := .malformed .tooDeep none

namespace Builder

def start : Builder := ⟨.empty, [], [], none⟩

/-- Puts a node into the innermost open collection. -/
def attach (b : Builder) (id : YamlId) : Builder :=
  match b.opened with
  | [] => { b with root := some id }
  | inner :: outer => { b with opened := { inner with children := id :: inner.children } :: outer }

def add (b : Builder) (p : Properties) (node : YamlNode) : Except YamlFault (YamlId × Builder) :=
  match p.anchor with
  | none => .ok (b.graph.nextId, { b with graph := b.graph.push node })
  | some name =>
    if (b.anchors.lookup name).isSome then .error (.here node.place .duplicateAnchor)
    else .ok (b.graph.nextId,
      { b with graph := b.graph.push node, anchors := (name, b.graph.nextId) :: b.anchors })

def openNode (b : Builder) (p : Properties) (usual : String) (content : Content) (place : Place) :
    Except YamlFault Builder := do
  let (id, b) ← b.add p ⟨p.tag.getD usual, place, content⟩
  if yamlDepthLimit ≤ b.opened.length then throw tooDeep
  return { b with opened := ⟨id, content.kind, []⟩ :: b.opened }

/-- Keys and values in turn. -/
def pairUp : List YamlId → List Entry
  | key :: value :: rest => (key, value) :: pairUp rest
  | _ => []

def close (b : Builder) : Builder :=
  match b.opened with
  | [] => b
  | inner :: outer =>
    let children := inner.children.reverse
    let content := if inner.kind = .mapping then .mapping (pairUp children) else .sequence children
    { b with graph := b.graph.setContent inner.id content, opened := outer }.attach inner.id

def step (b : Builder) (e : PlacedEvent) : Except YamlFault Builder :=
  match e.event with
  | .documentStart =>
    if b.root.isSome then .error (.here e.place .secondDocument) else .ok b
  | .documentEnd | .streamEnd => .ok b
  | .alias anchor =>
    match b.anchors.lookup anchor with
    | some id => .ok (b.attach id)
    | none => .error (.here e.place (.undefinedAlias anchor))
  | .scalar p untagged value => do
    let tag := p.tag.getD (if untagged then implicitTag value else Tag.str)
    let (id, b) ← b.add p ⟨tag, e.place, .scalar value⟩
    return b.attach id
  | .sequenceStart p => b.openNode p Tag.seq (.sequence []) e.place
  | .mappingStart p => b.openNode p Tag.map (.mapping []) e.place
  | .collectionEnd => .ok b.close

end Builder

/-- A graph with the node that holds the whole document, if the text has one. -/
structure ComposedDocument where
  graph : YamlGraph
  root : Option YamlId
deriving Inhabited

namespace ComposedDocument

def ofEvents (stream : EventStream) : Except YamlFault ComposedDocument := do
  let b ← stream.events.foldlM Builder.step Builder.start
  match stream.fault with
  | some fault => throw fault
  | none => return ⟨b.graph, b.root⟩

def ofChars (cs : List Char) : Except YamlFault ComposedDocument :=
  ofEvents (.ofTokens (.ofChars cs))

def ofText (text : String) : Except YamlFault ComposedDocument := do
  ofChars (← YamlSource.ofText text)

end ComposedDocument

end JsonSchema.Yaml

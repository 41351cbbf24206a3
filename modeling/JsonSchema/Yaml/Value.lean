import JsonSchema.Yaml.Merge
import JsonSchema.Yaml.Scalar

/-!
# The values of nodes

Every node gets one value, however many aliases lead to it. The content of a collection is read
after the collections that were met before it, so a fault in an outer collection comes before the
faults of the inner ones.
-/

namespace JsonSchema.Yaml

/-- The value of a node. The items and members of a collection are nodes again. -/
inductive YamlValue where
  | scalar (value : ScalarValue)
  | sequence (items : List YamlId)
  | mapping (members : Members YamlId)
  | pairs (count : Nat)
  | set
deriving DecidableEq, Repr, Inhabited

def YamlValue.kind : YamlValue → String
  | .scalar value => value.kind
  | .sequence _ | .pairs _ => "list"
  | .mapping _ => "dict"
  | .set => "set"

def CollectionTag.emptyValue : CollectionTag → YamlValue
  | .sequence => .sequence []
  | .mapping => .mapping []
  | .pairs => .pairs 0
  | .set => .set

structure Unread where
  id : YamlId
  tag : CollectionTag
deriving DecidableEq, Repr

/-- The values so far, and the collections whose content is to be read, last one first. -/
structure Construction where
  graph : YamlGraph
  values : Array (Option YamlValue)
  unread : List Unread

namespace Construction

def start (g : YamlGraph) : Construction := ⟨g, Array.replicate g.nodes.size none, []⟩

def value? (c : Construction) (id : YamlId) : Option YamlValue := (c.values[id]?).join

def setValue (c : Construction) (id : YamlId) (value : YamlValue) : Construction :=
  { c with values := c.values.setIfInBounds id (some value) }

def mismatch {α : Type} (node : YamlNode) (what : ExpectedNode) : Except YamlFault α :=
  .error (.here node.place (.expectedNode what node.kind))

/-- A text, and whether it stands for a mapping. -/
structure NodeText where
  text : String
  inMapping : Bool

/--
The text of a scalar. A mapping stands for its default value. Default values that lead back to
their mapping never end.
-/
def textOf (g : YamlGraph) : Nat → YamlId → Except YamlFault NodeText
  | 0, _ => .error tooDeep
  | fuel + 1, id =>
    let node := g.node id
    match node.content with
    | .scalar text => .ok ⟨text, false⟩
    | .mapping entries =>
      match entries.find? fun entry => (g.node entry.1).tag == Tag.value with
      | some entry => (textOf g fuel entry.2).map fun t => { t with inMapping := true }
      | none => mismatch node .scalar
    | .sequence _ => mismatch node .scalar

/-- The value of a node; the content of a collection is left for later. -/
def valueOf (c : Construction) (id : YamlId) : Except YamlFault (YamlValue × Construction) :=
  match c.value? id with
  | some value => .ok (value, c)
  | none =>
    let node := c.graph.node id
    match KnownTag.ofText? node.tag with
    | none => .error (.here node.place (.unknownTag node.tag))
    | some (.scalar tag) => do
      let t ← textOf c.graph (c.graph.nodes.size + 1) id
      let value := YamlValue.scalar (← tag.read t.inMapping node.place t.text)
      return (value, c.setValue id value)
    | some (.collection tag) =>
      let value := tag.emptyValue
      .ok (value, { c.setValue id value with unread := ⟨id, tag⟩ :: c.unread })

def visit (c : Construction) (ids : List YamlId) : Except YamlFault Construction :=
  ids.foldlM (fun c id => return (← c.valueOf id).2) c

/-! ## Mappings -/

def nameOf : YamlValue → Except YamlFault String
  | .scalar value => value.name
  | other => .error (.notJson (.key other.kind) "")

/-- The members of a mapping so far; `fixed` holds the names that may not come again. -/
structure Reading where
  construction : Construction
  members : Members YamlId
  fixed : List String

/-- Reads an entry of a mapping. Only an entry that was merged into it may be overridden. -/
def readEntry (r : Reading) (entry : Entry) (merged : Bool) : Except YamlFault Reading := do
  let keyPlace := (r.construction.graph.node entry.1).place
  let (key, c) ← r.construction.valueOf entry.1
  let name ← nameOf key
  if !merged && r.fixed.contains name then throw (.here keyPlace (.duplicateKey name))
  let (_, c) ← c.valueOf entry.2
  return ⟨c, r.members.put name entry.2, if merged then r.fixed else name :: r.fixed⟩

def membersOf (c : Construction) (id : YamlId) :
    Except YamlFault (Members YamlId × Construction) := do
  let node := c.graph.node id
  if node.kind != .mapping then mismatch node .mapping
  let own := ((c.graph.entries id).filter (!c.graph.isMergeKey ·)).length
  let c := { c with graph := ← c.graph.mergeKeys id }
  let entries := c.graph.entries id
  let mergedCount := entries.length - own
  let r ← entries.zipIdx.foldlM
    (fun r (entry, index) => readEntry r entry (decide (index < mergedCount))) ⟨c, [], []⟩
  return (r.members, r.construction)

/-! ## Other collections -/

def itemsOf (c : Construction) (id : YamlId) (what : ExpectedNode) :
    Except YamlFault (List YamlId) :=
  let node := c.graph.node id
  match node.content with
  | .sequence items => .ok items
  | _ => mismatch node what

/-- Reads an item of a list of pairs, which is a mapping with one entry. -/
def readPair (c : Construction) (id : YamlId) : Except YamlFault Construction := do
  let node := c.graph.node id
  match node.content with
  | .mapping [(key, value)] => c.visit [key, value]
  | .mapping entries => throw (.here node.place (.expectedOnePair entries.length))
  | _ => mismatch node .pair

def readContent (c : Construction) (u : Unread) : Except YamlFault Construction := do
  match u.tag with
  | .sequence =>
    let items ← c.itemsOf u.id .sequence
    return (← c.visit items).setValue u.id (.sequence items)
  | .mapping =>
    let (members, c) ← c.membersOf u.id
    return c.setValue u.id (.mapping members)
  | .set => return (← c.membersOf u.id).2
  | .pairs =>
    let items ← c.itemsOf u.id .pairs
    return (← items.foldlM readPair c).setValue u.id (.pairs items.length)

/-- Reads the collections that wait, and then those that were met in them, in `fuel` rounds. -/
def readWaiting : Nat → Construction → Except YamlFault Construction
  | 0, c => .ok c
  | fuel + 1, c => do
    if c.unread.isEmpty then return c
    let c ← c.unread.reverse.foldlM readContent { c with unread := [] }
    readWaiting fuel c

def ofGraph (g : YamlGraph) (id : YamlId) : Except YamlFault Construction := do
  let (_, c) ← (start g).valueOf id
  readWaiting (g.nodes.size + 1) c

end Construction

/-! ## JSON -/

namespace Construction

mutual

/--
The JSON value of a node. `around` holds the collections around it, and `pointer` the tokens that
lead to it, innermost first.
-/
def toJson (c : Construction) (fuel : Nat) (around : List YamlId) (pointer : List String)
    (id : YamlId) : Except YamlFault Json :=
  match fuel with
  | 0 => .error tooDeep
  | fuel + 1 =>
    let unfit (cause : NotJson) : Except YamlFault Json :=
      .error (.notJson cause (Pointer.ofTokens pointer.reverse))
    match (c.value? id).getD default with
    | .scalar .null => .ok .null
    | .scalar (.bool b) => .ok (.bool b)
    | .scalar (.int n) => .ok (.int n)
    | .scalar (.str s) => .ok (.str s)
    | .scalar (.float (.finite x)) => .ok (.float x)
    | .scalar (.float _) => unfit .nonFinite
    | .pairs 0 => .ok (.arr [])
    | .pairs _ => .error (.notJson (.value "tuple") (Pointer.ofTokens ("0" :: pointer).reverse))
    | .sequence items =>
      if around.contains id then unfit .recursive
      else (itemsToJson c fuel (id :: around) pointer 0 items).map .arr
    | .mapping members =>
      if around.contains id then unfit .recursive
      else (membersToJson c fuel (id :: around) pointer members).map .obj
    | other => unfit (.value other.kind)
termination_by (fuel, 0)

def itemsToJson (c : Construction) (fuel : Nat) (around : List YamlId) (pointer : List String)
    (index : Nat) (items : List YamlId) : Except YamlFault (List Json) :=
  match items with
  | [] => .ok []
  | id :: rest => do
    let item ← toJson c fuel around (natText index :: pointer) id
    return item :: (← itemsToJson c fuel around pointer (index + 1) rest)
termination_by (fuel, items.length + 1)

def membersToJson (c : Construction) (fuel : Nat) (around : List YamlId) (pointer : List String)
    (members : List (String × YamlId)) : Except YamlFault (Members Json) :=
  match members with
  | [] => .ok []
  | (name, id) :: rest => do
    let value ← toJson c fuel around (name :: pointer) id
    return (name, value) :: (← membersToJson c fuel around pointer rest)
termination_by (fuel, members.length + 1)

end

end Construction

/-- The JSON value of a document; an empty text is null. -/
def ComposedDocument.toJson (document : ComposedDocument) : Except YamlFault Json :=
  match document.root with
  | none => .ok .null
  | some id => do
    let c ← Construction.ofGraph document.graph id
    c.toJson (yamlDepthLimit + 1) [] [] id

end JsonSchema.Yaml

import JsonSchema.Document.Fault
import JsonSchema.Report.Source
import JsonSchema.Yaml.Value

/-!
# YAML documents

A YAML document has the JSON value that its nodes stand for. The source map of a text says where
its values start; most JSON texts have one too, since the grammar of YAML takes them in.
-/

namespace JsonSchema

namespace Json

def parseYamlChars (cs : Except YamlFault (List Char)) : Except ParseFault Json :=
  (do (← Yaml.ComposedDocument.ofChars (← cs)).toJson).mapError .yaml

def parseYaml (text : String) : Except ParseFault Json := parseYamlChars (YamlSource.ofText text)

def parseYamlBytes (bytes : Bytes) : Except ParseFault Json :=
  parseYamlChars (YamlSource.ofBytes bytes)

end Json

/-! ## Source maps -/

namespace Yaml

/-- The name of a member under a key, unless the key is no scalar that could name one. -/
def YamlNode.memberName? (node : YamlNode) : Except ScalarFault (Option String) :=
  match node.content, KnownTag.ofText? node.tag with
  | .scalar text, some (.scalar tag) =>
    match (tag.read false node.place text).bind ScalarValue.name with
    | .ok name => .ok (some name)
    | .error (.scalar fault) => .error fault
    | .error _ => .ok none
  | _, _ => .ok none

namespace YamlGraph

mutual

/-- Records where a node and those inside it start. A node inside itself is recorded only. -/
def locate (g : YamlGraph) (fuel : Nat) (around : List YamlId) (pointer : String) (id : YamlId)
    (map : SourceMap) : Except ScalarFault SourceMap :=
  match fuel with
  | 0 => .ok map
  | fuel + 1 =>
    let node := g.node id
    let map : SourceMap := map.put pointer ⟨some node.place.line, some node.place.column⟩
    if around.contains id then .ok map
    else
      match node.content with
      | .scalar _ => .ok map
      | .sequence items => locateItems g fuel (id :: around) pointer 0 items map
      | .mapping entries => locateEntries g fuel (id :: around) pointer entries map
termination_by (fuel, 0)

def locateItems (g : YamlGraph) (fuel : Nat) (around : List YamlId) (pointer : String)
    (index : Nat) (items : List YamlId) (map : SourceMap) : Except ScalarFault SourceMap :=
  match items with
  | [] => .ok map
  | id :: rest => do
    let map ← locate g fuel around (pointer ++ "/" ++ natText index) id map
    locateItems g fuel around pointer (index + 1) rest map
termination_by (fuel, items.length + 1)

def locateEntries (g : YamlGraph) (fuel : Nat) (around : List YamlId) (pointer : String)
    (entries : List Entry) (map : SourceMap) : Except ScalarFault SourceMap :=
  match entries with
  | [] => .ok map
  | (key, value) :: rest => do
    let map ← match ← (g.node key).memberName? with
      | some name => locate g fuel around (Pointer.join pointer [name]) value map
      | none => .ok map
    locateEntries g fuel around pointer rest map
termination_by (fuel, entries.length + 1)

end

end YamlGraph

end Yaml

/--
Where the values of a text start. A text that is no YAML has an empty map, but the text of a scalar
that does not fit its tag is a fault.
-/
def SourceMap.ofText (text : String) : Except ScalarFault SourceMap :=
  match Yaml.ComposedDocument.ofText text with
  | .ok ⟨graph, some id⟩ => graph.locate (graph.nodes.size + 1) [] "" id []
  | .ok ⟨_, none⟩ => .ok []
  | .error (.scalar fault) => .error fault
  | .error _ => .ok []

end JsonSchema

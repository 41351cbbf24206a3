import JsonSchema.Yaml.Node

/-!
# Merge keys

A merge key in a mapping stands for the entries of the mapping behind it, or of all mappings in a
list. Those entries go in front of the mapping's own ones; of a list, the last mapping goes first.
Once a mapping is merged, its node keeps the result.
-/

namespace JsonSchema.Yaml

def YamlGraph.isMergeKey (g : YamlGraph) (entry : Entry) : Bool := (g.node entry.1).tag == Tag.merge

/-- A key with the tag of a default value is an ordinary string in a mapping. -/
def YamlGraph.plainKey (g : YamlGraph) (entry : Entry) : YamlGraph :=
  let key := g.node entry.1
  if key.tag == Tag.value then g.setNode entry.1 { key with tag := Tag.str } else g

/-- The number of merge keys in a graph, which bounds how deep merges nest. -/
def YamlGraph.mergeCount (g : YamlGraph) : Nat :=
  g.nodes.foldl (fun count node =>
    match node.content with
    | .mapping entries => count + (entries.filter g.isMergeKey).length
    | _ => count) 0

namespace Merge

/-- What a merge has found so far: the graph, and the entries that go in front. -/
structure Merged where
  graph : YamlGraph
  entries : List Entry

/-- Merges the mappings of a list; `merge` merges the keys inside one of them. -/
def ofItems (merge : YamlGraph → YamlId → Except YamlFault YamlGraph) (g : YamlGraph) :
    List YamlId → Except YamlFault Merged
  | [] => .ok ⟨g, []⟩
  | id :: rest => do
    let node := g.node id
    if node.kind != .mapping then
      throw (.here node.place (.expectedNode .merged node.kind))
    let g ← merge g id
    let later ← ofItems merge g rest
    return ⟨later.graph, later.entries ++ g.entries id⟩

def ofValue (merge : YamlGraph → YamlId → Except YamlFault YamlGraph) (g : YamlGraph)
    (id : YamlId) : Except YamlFault Merged :=
  let node := g.node id
  match node.content with
  | .mapping _ => do
    let g ← merge g id
    return ⟨g, g.entries id⟩
  | .sequence items => ofItems merge g items
  | .scalar _ => .error (.here node.place (.expectedNode .mergedOrList .scalar))

/--
Merges the entries of the mapping `id` that are left. `kept` holds its other entries so far, last
first, and `merged` those that go in front. A merge that comes back to this mapping has done the
rest of it already.
-/
def ofEntries (merge : YamlGraph → YamlId → Except YamlFault YamlGraph) (id : YamlId)
    (merged kept : List Entry) (g : YamlGraph) : List Entry → Except YamlFault YamlGraph
  | [] => .ok (g.setContent id (.mapping (merged ++ kept.reverse)))
  | entry :: rest =>
    if g.isMergeKey entry then do
      let remaining := kept.reverse ++ rest
      let found ← ofValue merge (g.setContent id (.mapping remaining)) entry.2
      let merged := merged ++ found.entries
      let current := found.graph.entries id
      if current != remaining then return found.graph.setContent id (.mapping (merged ++ current))
      else ofEntries merge id merged kept found.graph rest
    else ofEntries merge id merged (entry :: kept) (g.plainKey entry) rest

/-- Merges the keys of one mapping, where merges nest at most `depth` deep. -/
def ofMapping : Nat → YamlGraph → YamlId → Except YamlFault YamlGraph
  | 0, g, _ => .ok g
  | depth + 1, g, id => ofEntries (ofMapping depth) id [] [] g (g.entries id)

end Merge

/-- The graph after the merge keys of a mapping have been replaced by what they stand for. -/
def YamlGraph.mergeKeys (g : YamlGraph) (id : YamlId) : Except YamlFault YamlGraph :=
  Merge.ofMapping (g.mergeCount + 1) g id

end JsonSchema.Yaml

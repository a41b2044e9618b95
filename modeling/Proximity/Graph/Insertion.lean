import Proximity.Graph.Beam
import Proximity.Graph.Descent
import Proximity.Graph.FieldGraph
import Proximity.Graph.Parent
import Proximity.Graph.Selection

set_option autoImplicit false
set_option relaxedAutoImplicit false

/-!
# Inserting into a graph

The graph is layered: the lowest layer holds every node, and each higher one a part of the nodes
below. On every layer a node keeps a limited number of neighbors, and every node but the first has a
parent there. The edges between a node and its parent are in both lists and are never given up, so
each layer is a spanning tree with extra edges, and every node can be reached.

A new node first descends from the entry point to its own highest layer. On each layer from there
down it looks for candidates with a beam search, takes the nearest node with room as its parent, and
selects its neighbors; each of these takes the new node into its own list, which is cut back if it
has become too long.

## Main definitions

* `Proximity.FieldGraph.connect` — takes a node into the list of another.
* `Proximity.FieldGraph.linkLayer` — links a new node on one layer.
* `Proximity.FieldGraph.insert` — puts a new node into the graph.
* `Proximity.FieldGraph.search` — the candidates nearest to a query.
-/

namespace Proximity.FieldGraph

/-! ## One list -/

/-- The list cut back to `limit` neighbors of a vector, tree edges first. -/
def prune (graph : FieldGraph) (layer limit : Nat) (id : VectorId) (list : List VectorId) :
    Except IndexError (List VectorId) := do
  let scored ← list.mapM fun other => do
    return ({ distance := ← graph.between id other, id := other } : Candidate)
  let pinned ← graph.treeEdges layer id list
  Selection.select graph.between limit pinned (Candidate.sort scored)

/-- Takes `other` into the list of a vector, which is cut back to `limit` neighbors if it has become
too long. -/
def connect (graph : FieldGraph) (layer limit : Nat) (id other : VectorId) :
    Except IndexError FieldGraph := do
  let list ← graph.neighbors layer id
  if list.contains other then return graph
  let list := list ++ [other]
  if limit < list.length then
    return graph.setNeighbors layer id (← graph.prune layer limit id list)
  else return graph.setNeighbors layer id list

/-! ## One layer -/

/-- Whether a node with these neighbors can take one more tree edge. -/
def hasRoom (graph : FieldGraph) (layer limit : Nat) (id : VectorId) (list : List VectorId) :
    Except IndexError Bool := do
  return (← graph.treeEdges layer id list).length < limit

/-- The nearest node that can take one more tree edge, breadth first from the candidates. -/
def findParent (graph : FieldGraph) (query : Bytes) (layer limit : Nat)
    (candidates : List Candidate) : Except IndexError VectorId :=
  (graph.layer query layer).firstWithRoom (graph.hasRoom layer limit)
    (.inconsistent (.saturatedLayer layer)) ∅ (candidates.map Candidate.id)

/-- The candidates, in ascending order, with the parent among them. -/
def withParent (graph : FieldGraph) (query : Bytes) (candidates : List Candidate)
    (parent : VectorId) : Except IndexError (List Candidate) := do
  if candidates.any fun candidate => candidate.id = parent then return candidates
  else
    let distance ← graph.distanceTo query parent
    return Candidate.sort (candidates ++ [{ distance, id := parent }])

/-- Links a new node on one layer, looking from some entries, and answers the candidates found
there too. -/
def linkLayer (graph : FieldGraph) (id : VectorId) (query : Bytes) (limit width layer : Nat)
    (entries : List Candidate) : Except IndexError (FieldGraph × List Candidate) := do
  let found ← (graph.layer query layer).beamSearch (max width limit) entries
  let parent ← graph.findParent query layer limit found
  let graph := graph.setParent layer id parent
  let candidates ← graph.withParent query found parent
  let selected ← Selection.select graph.between limit [parent] candidates
  let graph := graph.setNeighbors layer id selected
  let others := selected.filter fun other => other ≠ parent
  let graph ← others.foldlM (fun graph other => graph.connect layer limit other id) graph
  let graph ← graph.connect layer limit parent id
  return (graph, found)

/-- Links a new node on the layers below `count`, from the highest down. -/
def linkLayers (graph : FieldGraph) (id : VectorId) (query : Bytes) (limit width : Nat) :
    (count : Nat) → List Candidate → Except IndexError FieldGraph
  | 0, _ => .ok graph
  | layer + 1, entries => do
    let (graph, found) ← graph.linkLayer id query limit width layer entries
    graph.linkLayers id query limit width layer found

/-! ## Nodes -/

/-- The header after one more node has come in; nodes are counted in 64 bits. -/
def countNode (header : GraphHeader) (id : VectorId) (level : Nat) : GraphHeader :=
  let header := { header with nodeCount := (header.nodeCount + 1) % UInt64.size }
  if header.entryPoint.isNone || header.maxLevel < level then
    { header with entryPoint := some id, maxLevel := level }
  else header

/-- Links a new node on all its layers, from the entry point of the graph. -/
def link (graph : FieldGraph) (id : VectorId) (level limit width : Nat) (entryPoint : VectorId) :
    Except IndexError FieldGraph := do
  let query ← graph.vector id
  let top := graph.header.maxLevel
  let entry ← (graph.layer query top).candidate entryPoint
  let entry ← descendLayers (graph.layer query) (level + 1) (top - level) entry
  graph.linkLayers id query limit width (min level top + 1) [entry]

/-- Puts a new node into the graph, whose vector lies in its place already. -/
def insert (graph : FieldGraph) (id : VectorId) (location : SlotRef) (level limit width : Nat) :
    Except IndexError FieldGraph := do
  if graph.contains id then throw (.duplicate id.raw)
  let graph := graph.addNode id (.blank level location)
  let linked ← match graph.header.entryPoint with
    | none => pure graph
    | some entryPoint => graph.link id level limit width entryPoint
  return { linked with header := countNode linked.header id level }

/-! ## Searching -/

/-- The candidates nearest to a query that a beam of this width finds, in ascending order. -/
def search (graph : FieldGraph) (query : Bytes) (width : Nat) :
    Except IndexError (List Candidate) := do
  match graph.header.entryPoint with
  | none => return []
  | some entryPoint =>
    let entry ← (graph.layer query 0).candidate entryPoint
    let entry ← descendLayers (graph.layer query) 1 graph.header.maxLevel entry
    (graph.layer query 0).beamSearch width [entry]

end Proximity.FieldGraph

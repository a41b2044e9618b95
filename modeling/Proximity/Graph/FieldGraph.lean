import Proximity.Embedding.Codec
import Proximity.Graph.Layer
import Proximity.Graph.Record
import Proximity.Store.WriteTransaction

set_option autoImplicit false
set_option relaxedAutoImplicit false

/-!
# The graph of a field

A graph is opened from what a transaction sees: its header, all its nodes and all its containers. A
record that cannot be read is kept as the report of that, which comes up when the record is needed.
Changes stay in the opened graph until they are written back into a transaction.

## Main definitions

* `Proximity.FieldGraph` — an opened graph.
* `Proximity.FieldGraph.load` — opening.
* `Proximity.FieldGraph.node`, `Proximity.FieldGraph.vector` — look-ups, each of which can fail.
* `Proximity.FieldGraph.layer` — a layer as one query sees it.
* `Proximity.FieldGraph.setNeighbors`, `Proximity.FieldGraph.setParent` — changes of a node.
* `Proximity.FieldGraph.flush` — writes the changes back.
-/

namespace Proximity

open MessagePack

/-- The nodes of a graph, each as far as it can be read. -/
abbrev Nodes := Std.TreeMap VectorId (Except IndexError NodeRecord) compare

/-- The containers of a field, each as far as it can be read. -/
abbrev Containers := Std.TreeMap PageId (Except IndexError Container) compare

/-- An opened graph of a field. -/
structure FieldGraph where
  /-- The name of the field. -/
  field : String
  /-- How the vectors of the field are compared. -/
  codec : Codec
  /-- The state of the graph. -/
  header : GraphHeader
  /-- The nodes. -/
  nodes : Nodes
  /-- The containers. -/
  containers : Containers
  /-- The nodes that have been changed. -/
  changedNodes : IdSet
  /-- The containers that have been changed. -/
  changedContainers : Std.TreeSet PageId compare

namespace FieldGraph

/-! ## Opening -/

/-- The nodes with a vector name in their key. -/
def loadNodes (view : Snapshot) (field : String) : Nodes :=
  (view.scan (RecordKey.nodeStem field)).foldl (fun nodes entry =>
    match (Bytes.after? (RecordKey.nodeStem field) entry.1).bind RecordKey.number? with
    | some raw => nodes.insert ⟨raw⟩ (decode entry.2)
    | none => nodes) ∅

/-- The containers with a page number in their key. -/
def loadContainers (view : Snapshot) (field : String) : Containers :=
  (view.scan (RecordKey.containerStem field)).foldl (fun containers entry =>
    match (Bytes.after? (RecordKey.containerStem field) entry.1).bind RecordKey.number? with
    | some number =>
      containers.insert ⟨number⟩ (Container.ofStored view ⟨number⟩ entry.2)
    | none => containers) ∅

/-- The graph of a field, as a transaction sees it. -/
def load (view : Snapshot) (field : String) (codec : Codec) : Except IndexError FieldGraph := do
  let header ← GraphHeader.find view field
  return {
    field, codec, header
    nodes := loadNodes view field
    containers := loadContainers view field
    changedNodes := ∅
    changedContainers := ∅ }

/-! ## Look-ups -/

/-- Whether a vector is registered. -/
def contains (graph : FieldGraph) (id : VectorId) : Bool :=
  graph.nodes.contains id

/-- The node of a vector. -/
def node (graph : FieldGraph) (id : VectorId) : Except IndexError NodeRecord :=
  match graph.nodes[id]? with
  | some node => node
  | none => .error (.inconsistent (.missingNode id))

/-- The geometry of the containers. -/
def layout (graph : FieldGraph) : Except IndexError ContainerLayout :=
  match ContainerLayout.forVectorLength? graph.header.vectorLength with
  | some layout => .ok layout
  | none => .error (.inconsistent .unknownLayout)

/-- A container. -/
def container (graph : FieldGraph) (page : PageId) : Except IndexError Container :=
  match graph.containers[page]? with
  | some container => container
  | none => .error (.inconsistent (.missingContainer page))

/-- The stored form of a vector. -/
def vector (graph : FieldGraph) (id : VectorId) : Except IndexError Bytes := do
  let node ← graph.node id
  let layout ← graph.layout
  let container ← graph.container node.location.container
  container.vector layout node.location

/-- The neighbors of a vector on a layer. -/
def neighbors (graph : FieldGraph) (layer : Nat) (id : VectorId) :
    Except IndexError (List VectorId) := do
  let node ← graph.node id
  return node.neighborsAt layer

/-- The parent of a vector on a layer. -/
def parent (graph : FieldGraph) (layer : Nat) (id : VectorId) :
    Except IndexError (Option VectorId) := do
  let node ← graph.node id
  return node.parentAt layer

/-- The distance of a vector to a query. -/
def distanceTo (graph : FieldGraph) (query : Bytes) (id : VectorId) :
    Except IndexError Single := do
  let bytes ← graph.vector id
  return graph.codec.distance query bytes

/-- The distance of two vectors. -/
def between (graph : FieldGraph) (a b : VectorId) : Except IndexError Single := do
  let bytes ← graph.vector a
  graph.distanceTo bytes b

/-- The vectors of a list to which a vector is joined by a parent link in either direction. -/
def treeEdges (graph : FieldGraph) (layer : Nat) (id : VectorId) (list : List VectorId) :
    Except IndexError (List VectorId) := do
  let own ← graph.parent layer id
  list.filterM fun other => do
    if own = some other then return true
    else return (← graph.parent layer other) = some id

/-! ## Layers -/

/-- A node that can be read is one of the graph. -/
theorem mem_keys_of_node {graph : FieldGraph} {id : VectorId} {node : NodeRecord}
    (h : graph.node id = .ok node) : id ∈ graph.nodes.keys := by
  rw [Std.TreeMap.mem_keys, Std.TreeMap.mem_iff_isSome_getElem?]
  unfold FieldGraph.node at h
  split at h
  · next hn => simp [hn]
  · simp at h

/-- A layer of the graph as one query sees it. -/
def layer (graph : FieldGraph) (query : Bytes) (layer : Nat) : Layer IndexError where
  nodes := graph.nodes.keys
  neighbors := graph.neighbors layer
  distance := graph.distanceTo query
  mem_of_neighbors {id list} h := by
    unfold FieldGraph.neighbors at h
    cases hn : graph.node id with
    | error e => simp [hn, bind, Except.bind] at h
    | ok node => exact mem_keys_of_node hn
  mem_of_distance {id d} h := by
    unfold FieldGraph.distanceTo FieldGraph.vector at h
    cases hn : graph.node id with
    | error e => simp [hn, bind, Except.bind] at h
    | ok node => exact mem_keys_of_node hn

/-! ## Changes -/

/-- The graph with one node changed; a node that cannot be read stays as it is. -/
def modifyNode (graph : FieldGraph) (id : VectorId) (change : NodeRecord → NodeRecord) :
    FieldGraph :=
  match graph.nodes[id]? with
  | some (.ok node) => { graph with
      nodes := graph.nodes.insert id (.ok (change node))
      changedNodes := graph.changedNodes.insert id }
  | _ => graph

/-- The graph with the neighbors of a vector on one of its layers replaced. -/
def setNeighbors (graph : FieldGraph) (layer : Nat) (id : VectorId) (list : List VectorId) :
    FieldGraph :=
  match graph.node id with
  | .ok node =>
    if layer < node.neighbors.length then
      graph.modifyNode id fun node => { node with neighbors := node.neighbors.set layer list }
    else graph
  | .error _ => graph

/-- The graph with the parent of a vector on one of its layers replaced. -/
def setParent (graph : FieldGraph) (layer : Nat) (id parent : VectorId) : FieldGraph :=
  match graph.node id with
  | .ok node =>
    if layer < node.parents.length then
      graph.modifyNode id fun node =>
        { node with parents := node.parents.set layer (some parent) }
    else graph
  | .error _ => graph

/-- The graph with a node for a new vector. -/
def addNode (graph : FieldGraph) (id : VectorId) (node : NodeRecord) : FieldGraph :=
  { graph with
    nodes := graph.nodes.insert id (.ok node)
    changedNodes := graph.changedNodes.insert id }

/-- The graph with the contents of a container replaced. -/
def setContainer (graph : FieldGraph) (page : PageId) (container : Container) : FieldGraph :=
  { graph with
    containers := graph.containers.insert page (.ok container)
    changedContainers := graph.changedContainers.insert page }

/-! ## Writing back -/

/-- Writes one container and its record. -/
def flushContainer (graph : FieldGraph) (txn : WriteTransaction) (page : PageId) :
    Except IndexError WriteTransaction := do
  let container ← graph.container page
  match txn.writeRun page container.run with
  | .error cause => throw (.storage cause)
  | .ok txn =>
    return txn.put (RecordKey.container graph.field page).bytes (encode container.record)

/-- Writes one node. -/
def flushNode (graph : FieldGraph) (txn : WriteTransaction) (id : VectorId) :
    Except IndexError WriteTransaction := do
  let node ← graph.node id
  return txn.put (RecordKey.node graph.field id).bytes (encode node)

/-- Writes the changed containers, the changed nodes and the header. -/
def flush (graph : FieldGraph) (txn : WriteTransaction) : Except IndexError WriteTransaction := do
  let txn ← graph.changedContainers.toList.foldlM graph.flushContainer txn
  let txn ← graph.changedNodes.toList.foldlM graph.flushNode txn
  return txn.put (RecordKey.graph graph.field).bytes (encode graph.header)

end FieldGraph

end Proximity

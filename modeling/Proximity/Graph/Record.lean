import Proximity.Container.Record

set_option autoImplicit false
set_option relaxedAutoImplicit false

/-!
# Stored graphs

The graph of a field is stored as one node for each vector and one header. Nodes name each other by
vector name only.

## Main definitions

* `Proximity.GraphHeader` — where searches start, how large the graph is, and how long its vectors.
* `Proximity.NodeRecord` — the layers of a vector, its place, and its neighbors and parent on each
  layer.
-/

namespace Proximity

open MessagePack

/-- The state of the graph of a field. -/
structure GraphHeader where
  /-- The node on the top layer at which every search starts. -/
  entryPoint : Option VectorId
  /-- The top layer. -/
  maxLevel : Nat
  /-- The number of registered vectors. -/
  nodeCount : Nat
  /-- The length of a given vector, or zero before the first one. -/
  rawLength : Nat
  /-- The length of a stored vector, or zero before the first one. -/
  vectorLength : Nat
  /-- The container that was handed out last. -/
  openContainer : Option PageId
deriving DecidableEq

/-- A node of a graph. -/
structure NodeRecord where
  /-- The highest layer that the node is on. -/
  level : Nat
  /-- Where the stored vector lies. -/
  location : SlotRef
  /-- The neighbors on each layer, from the lowest on. -/
  neighbors : List (List VectorId)
  /-- The parent on each layer; the first node of a layer has none. -/
  parents : List (Option VectorId)
deriving DecidableEq

namespace GraphHeader

/-- The header of a graph without nodes. -/
def blank : GraphHeader where
  entryPoint := none
  maxLevel := 0
  nodeCount := 0
  rawLength := 0
  vectorLength := 0
  openContainer := none

/-- The item for a graph header. -/
def toItem (header : GraphHeader) : Item :=
  .array [.ofOption VectorId.toItem header.entryPoint, .ofNat header.maxLevel,
    .ofNat header.nodeCount, .ofNat header.rawLength, .ofNat header.vectorLength,
    .ofOption PageId.toItem header.openContainer]

/-- The names of the parts of a graph header in a map. -/
def fieldNames : List String :=
  ["entry_point", "max_level", "node_count", "raw_len", "vector_len", "open_container"]

/-- The graph header that an item holds. -/
def ofItem? (item : Item) : Option GraphHeader := do
  match ← item.fields? fieldNames with
  | [entryPoint, maxLevel, nodeCount, rawLength, vectorLength, openContainer] =>
    let entryPoint ← Item.optional? VectorId.ofItem? entryPoint
    let maxLevel ← Item.required? (Item.nat? UInt64.size) maxLevel
    let nodeCount ← Item.required? (Item.nat? UInt64.size) nodeCount
    let rawLength ← Item.required? (Item.nat? UInt64.size) rawLength
    let vectorLength ← Item.required? (Item.nat? UInt64.size) vectorLength
    let openContainer ← Item.optional? PageId.ofItem? openContainer
    return { entryPoint, maxLevel, nodeCount, rawLength, vectorLength, openContainer }
  | _ => none

/-- A graph header is stored as its item. -/
instance : Storable GraphHeader where
  toItem := toItem
  ofItem? := ofItem?
  kind := "graph header"

/-- The header of the graph of a field; a field without one has no nodes. -/
def find (view : Snapshot) (field : String) : Except IndexError GraphHeader :=
  match view.get? (RecordKey.graph field).bytes with
  | some stored => decode stored
  | none => .ok blank

end GraphHeader

namespace NodeRecord

/-- A node without neighbors and parents. -/
def blank (level : Nat) (location : SlotRef) : NodeRecord where
  level := level
  location := location
  neighbors := List.replicate (level + 1) []
  parents := List.replicate (level + 1) none

/-- The item for a node. -/
def toItem (node : NodeRecord) : Item :=
  .array [.ofNat node.level, node.location.toItem,
    .array (node.neighbors.map fun list => .array (list.map VectorId.toItem)),
    .array (node.parents.map (.ofOption VectorId.toItem))]

/-- The names of the parts of a node in a map. -/
def fieldNames : List String := ["level", "location", "neighbors", "parents"]

/-- The node that an item holds. -/
def ofItem? (item : Item) : Option NodeRecord := do
  match ← item.fields? fieldNames with
  | [level, location, neighbors, parents] =>
    let level ← Item.required? (Item.nat? UInt64.size) level
    let location ← Item.required? SlotRef.ofItem? location
    let neighbors ← Item.required? (Item.list? (Item.numbers? VectorId.ofItem?)) neighbors
    let parents ← Item.required? (Item.list? (Item.option? VectorId.ofItem?)) parents
    return { level, location, neighbors, parents }
  | _ => none

/-- A node is stored as its item. -/
instance : Storable NodeRecord where
  toItem := toItem
  ofItem? := ofItem?
  kind := "graph node"

/-- The neighbors of a node on a layer; there are none above its level. -/
def neighborsAt (node : NodeRecord) (layer : Nat) : List VectorId :=
  node.neighbors[layer]?.getD []

/-- The parent of a node on a layer. -/
def parentAt (node : NodeRecord) (layer : Nat) : Option VectorId :=
  node.parents[layer]?.getD none

end NodeRecord

end Proximity

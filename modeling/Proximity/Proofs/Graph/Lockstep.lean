import Proximity.Graph.Insertion
import Proximity.Proofs.Except

set_option relaxedAutoImplicit false
set_option autoImplicit false

/-!
# Graphs that go on in step

Linking a node and searching read a graph through a few look-ups only, and linking changes nothing
but lists and parents. So two graphs that answer these look-ups alike make the same choices, and if
the same changes leave them answering alike, they take in a node together or fail together.

## Main definitions

* `Proximity.FieldGraph.AnswersAlike` — two graphs that answer alike.
* `Proximity.FieldGraph.Lockstep` — a relation that the changes of linking keep.

## Main results

* `Proximity.FieldGraph.AnswersAlike.search_eq` — searching finds the same.
* `Proximity.FieldGraph.Lockstep.linkLayer`, `Proximity.FieldGraph.Lockstep.link` — linking a node.
* `Proximity.FieldGraph.Lockstep.insert` — taking in a node.
-/

namespace Proximity.FieldGraph

/-! ## The same answers -/

/-- **Two graphs answer alike** what linking a node and searching ask of them. -/
structure AnswersAlike (graph graph' : FieldGraph) : Prop where
  codec : graph'.codec = graph.codec
  entryPoint : graph'.header.entryPoint = graph.header.entryPoint
  maxLevel : graph'.header.maxLevel = graph.header.maxLevel
  keys : graph'.nodes.keys = graph.nodes.keys
  neighbors : graph'.neighbors = graph.neighbors
  parent : graph'.parent = graph.parent
  vector : graph'.vector = graph.vector

namespace AnswersAlike

variable {graph graph' : FieldGraph}

/-- Graphs that answer alike have the same vectors. -/
lemma contains_eq (h : AnswersAlike graph graph') (id : VectorId) :
    graph'.contains id = graph.contains id := by
  rw [contains, contains, ← Std.TreeMap.contains_keys, ← Std.TreeMap.contains_keys, h.keys]

/-- Graphs that answer alike measure the same distances to a query. -/
lemma distanceTo_eq (h : AnswersAlike graph graph') : graph'.distanceTo = graph.distanceTo := by
  funext query id
  rw [distanceTo, distanceTo, h.vector, h.codec]

/-- Graphs that answer alike measure the same distances between vectors. -/
lemma between_eq (h : AnswersAlike graph graph') : graph'.between = graph.between := by
  funext a b
  rw [between, between, h.vector, h.distanceTo_eq]

/-- Graphs that answer alike have the same edges in their trees. -/
lemma treeEdges_eq (h : AnswersAlike graph graph') : graph'.treeEdges = graph.treeEdges := by
  funext layer id list
  rw [treeEdges, treeEdges, h.parent]

/-- Graphs that answer alike have the same layers. -/
lemma layer_eq (h : AnswersAlike graph graph') : graph'.layer = graph.layer := by
  funext query layer
  simp only [FieldGraph.layer, Layer.mk.injEq]
  exact ⟨h.keys, by rw [h.neighbors], by rw [h.distanceTo_eq]⟩

/-- Graphs that answer alike shorten a list to the same neighbors. -/
lemma prune_eq (h : AnswersAlike graph graph') : graph'.prune = graph.prune := by
  funext layer limit id list
  rw [prune, prune, h.between_eq, h.treeEdges_eq]

/-- Graphs that answer alike find the same parent. -/
lemma findParent_eq (h : AnswersAlike graph graph') : graph'.findParent = graph.findParent := by
  have hroom : graph'.hasRoom = graph.hasRoom := by
    funext layer limit id list
    rw [hasRoom, hasRoom, h.treeEdges_eq]
  funext query layer limit candidates
  rw [findParent, findParent, h.layer_eq, hroom]

/-- Graphs that answer alike put the same parent among the neighbors. -/
lemma withParent_eq (h : AnswersAlike graph graph') : graph'.withParent = graph.withParent := by
  funext query candidates parent
  rw [withParent, withParent, h.distanceTo_eq]

/-- **Searching finds the same** in graphs that answer alike. -/
theorem search_eq (h : AnswersAlike graph graph') : graph'.search = graph.search := by
  funext query width
  rw [search, search, h.entryPoint, h.maxLevel, h.layer_eq]

end AnswersAlike

/-! ## In step -/

/-- **A relation that keeps graphs in step**: related graphs answer alike, and they stay related
when the same list or parent is replaced in both. -/
structure Lockstep (R : FieldGraph → FieldGraph → Prop) : Prop where
  answers : ∀ {graph graph'}, R graph graph' → AnswersAlike graph graph'
  setNeighbors : ∀ {graph graph'}, R graph graph' → ∀ layer id list,
    R (graph.setNeighbors layer id list) (graph'.setNeighbors layer id list)
  setParent : ∀ {graph graph'}, R graph graph' → ∀ layer id parent,
    R (graph.setParent layer id parent) (graph'.setParent layer id parent)

namespace Lockstep

variable {R : FieldGraph → FieldGraph → Prop} {graph graph' : FieldGraph}

/-- Both graphs take a node into a list, or neither does. -/
lemma connect (hR : Lockstep R) (h : R graph graph') (layer limit : Nat) (id other : VectorId) :
    Except.Rel R (graph.connect layer limit id other) (graph'.connect layer limit id other) := by
  have halike := hR.answers h
  rw [FieldGraph.connect, FieldGraph.connect, halike.neighbors, halike.prune_eq]
  refine Except.Rel.bind_left _ fun list => ?_
  split
  · exact .ok h
  · dsimp only
    split
    · exact Except.Rel.bind_left _ fun kept => .ok (hR.setNeighbors h layer id kept)
    · exact .ok (hR.setNeighbors h layer id _)

/-- **Both graphs link a node on one layer**, with the same candidates found, or neither does.

**Proof sketch.** What is looked up is the same in both graphs, so that both take the same branches.
Each change of links keeps the relation. -/
theorem linkLayer (hR : Lockstep R) (h : R graph graph') (id : VectorId) (query : Bytes)
    (limit width layer : Nat) (entries : List Candidate) :
    Except.Rel (fun a b => R a.1 b.1 ∧ b.2 = a.2)
      (graph.linkLayer id query limit width layer entries)
      (graph'.linkLayer id query limit width layer entries) := by
  have halike := hR.answers h
  rw [FieldGraph.linkLayer, FieldGraph.linkLayer, halike.layer_eq, halike.findParent_eq]
  refine Except.Rel.bind_left _ fun found => Except.Rel.bind_left _ fun parent => ?_
  have hparent := hR.setParent h layer id parent
  dsimp only
  rw [(hR.answers hparent).withParent_eq, (hR.answers hparent).between_eq]
  refine Except.Rel.bind_left _ fun candidates => Except.Rel.bind_left _ fun selected => ?_
  have hothers := Except.Rel.foldlM (ε := IndexError) (R := R)
    (l := selected.filter fun other => other ≠ parent)
    (fun other _ a b hab => hR.connect hab layer limit other id)
    (hR.setNeighbors hparent layer id selected)
  refine hothers.bind fun a b hab => ?_
  exact (hR.connect hab layer limit parent id).bind fun a b hab => .ok ⟨hab, rfl⟩

/-- Both graphs link a node on several layers, or neither does. -/
lemma linkLayers (hR : Lockstep R) (h : R graph graph') (id : VectorId) (query : Bytes)
    (limit width count : Nat) (entries : List Candidate) :
    Except.Rel R (graph.linkLayers id query limit width count entries)
      (graph'.linkLayers id query limit width count entries) := by
  induction count generalizing graph graph' entries with
  | zero => exact .ok h
  | succ layer ih =>
    rw [FieldGraph.linkLayers, FieldGraph.linkLayers]
    refine (hR.linkLayer h id query limit width layer entries).bind ?_
    rintro ⟨next, found⟩ ⟨next', found'⟩ ⟨hnext, rfl⟩
    exact ih hnext found'

/-- **Both graphs link a node** on all its layers, or neither does. -/
theorem link (hR : Lockstep R) (h : R graph graph') (id : VectorId) (level limit width : Nat)
    (entryPoint : VectorId) :
    Except.Rel R (graph.link id level limit width entryPoint)
      (graph'.link id level limit width entryPoint) := by
  have halike := hR.answers h
  rw [FieldGraph.link, FieldGraph.link, halike.vector, halike.maxLevel, halike.layer_eq]
  refine Except.Rel.bind_left _ fun query => Except.Rel.bind_left _ fun start =>
    Except.Rel.bind_left _ fun entry => ?_
  exact hR.linkLayers h id query limit width _ [entry]

/-- **Both graphs take in a node** that is new in both or in neither, and are counted alike.

**Proof sketch.** Both graphs have a node of the name or neither has, and both have the same entry
point. The new node is related to itself, whatever its place. -/
theorem insert (hR : Lockstep R) {id : VectorId} {location location' : SlotRef} {level : Nat}
    (hcontains : graph'.contains id = graph.contains id)
    (hadd : R (graph.addNode id (.blank level location))
      (graph'.addNode id (.blank level location'))) (limit width : Nat) :
    Except.Rel (fun a b => ∃ linked linked', R linked linked' ∧
        a = { linked with header := countNode linked.header id level } ∧
        b = { linked' with header := countNode linked'.header id level })
      (graph.insert id location level limit width)
      (graph'.insert id location' level limit width) := by
  rw [FieldGraph.insert, FieldGraph.insert, hcontains]
  split
  · exact .error _
  · have hentry : (graph'.addNode id (.blank level location')).header.entryPoint =
        (graph.addNode id (.blank level location)).header.entryPoint := (hR.answers hadd).entryPoint
    dsimp only
    rw [hentry]
    split
    · exact .ok ⟨_, _, hadd, rfl, rfl⟩
    · exact (hR.link hadd id level limit width _).bind fun a b hab => .ok ⟨a, b, hab, rfl, rfl⟩

end Lockstep

end Proximity.FieldGraph

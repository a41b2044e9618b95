import Mathlib.Data.Set.Finite.Basic
import Proximity.Graph.Insertion
import Proximity.Proofs.Except
import Proximity.Proofs.Graph.BeamSearch
import Proximity.Proofs.Graph.Links

set_option relaxedAutoImplicit false
set_option autoImplicit false

/-!
# What an opened graph holds

An opened graph whose records can all be read is a header and two look-ups, one for nodes and one
for containers. Look-ups in the graph are look-ups in these, and each change of the graph changes
one entry. Linking a node only ever changes the links of some layers.

## Main definitions

* `Proximity.GraphContents` — a header and two look-ups.
* `Proximity.GraphContents.links`, `Proximity.GraphContents.members` — a layer.
* `Proximity.GraphContents.Stores` — the stored form of a vector.
* `Proximity.GraphContents.Relinks` — contents that differ in the links of some layers.
* `Proximity.FieldGraph.Shows` — what an opened graph holds, and what it had been opened from.

## Main results

* `Proximity.FieldGraph.Shows.exists_setNeighbors`, `Proximity.FieldGraph.Shows.exists_setParent` —
  a change of a node changes one link.
* `Proximity.FieldGraph.Shows.serves` — a sound layer serves its members.
-/

namespace Proximity

/-! ## Contents -/

/-- The header of a graph, its nodes and its containers. -/
structure GraphContents where
  /-- The state of the graph. -/
  header : GraphHeader
  /-- The node of a vector. -/
  node : VectorId → Option NodeRecord
  /-- The container at a page. -/
  container : PageId → Option Container

/-- A node has a list and a parent on each of its layers. -/
structure NodeRecord.Shaped (node : NodeRecord) : Prop where
  neighbors : node.neighbors.length = node.level + 1
  parents : node.parents.length = node.level + 1

namespace GraphContents

/-- The links of a layer. -/
def links (contents : GraphContents) (layer : Nat) : Links where
  list id := ((contents.node id).map fun node => node.neighborsAt layer).getD []
  parent id := (contents.node id).bind fun node => node.parentAt layer

/-- The nodes that are on a layer. -/
def members (contents : GraphContents) (layer : Nat) : Set VectorId :=
  {id | ∃ node, contents.node id = some node ∧ layer ≤ node.level}

/-- The stored form of a vector, in the slot of its node. -/
def Stores (contents : GraphContents) (id : VectorId) (bytes : Bytes) : Prop :=
  ∃ node layout container, contents.node id = some node ∧
    ContainerLayout.forVectorLength? contents.header.vectorLength = some layout ∧
    contents.container node.location.container = some container ∧
    container.vector layout node.location = .ok bytes

/-- A candidate carries the distance of its vector to a query. -/
def Measures (contents : GraphContents) (codec : Codec) (query : Bytes) (candidate : Candidate) :
    Prop :=
  ∃ bytes, contents.Stores candidate.id bytes ∧ codec.distance query bytes = candidate.distance

/-- The contents with the node of a vector replaced. -/
def setNode (contents : GraphContents) (id : VectorId) (node : NodeRecord) : GraphContents :=
  { contents with node := fun other => if other = id then some node else contents.node other }

/-- The contents with a container replaced. -/
def setContainer (contents : GraphContents) (page : PageId) (container : Container) :
    GraphContents :=
  { contents with
    container := fun other => if other = page then some container else contents.container other }

variable {contents next last : GraphContents} {layer : Nat} {id : VectorId} {node : NodeRecord}

/-- A node that is put into the contents is found there, and the others stay. -/
lemma node_setNode (other : VectorId) : (contents.setNode id node).node other =
    if other = id then some node else contents.node other := rfl

/-- A node that is put into the contents is found there. -/
@[simp]
lemma node_setNode_self : (contents.setNode id node).node id = some node :=
  if_pos rfl

/-- A node that is put into the contents leaves the others. -/
lemma node_setNode_of_ne {other : VectorId} (h : other ≠ id) :
    (contents.setNode id node).node other = contents.node other :=
  if_neg h

/-- A container that is put into the contents is found there, and the others stay. -/
lemma container_setContainer (page : PageId) (container : Container) (other : PageId) :
    (contents.setContainer page container).container other =
      if other = page then some container else contents.container other := rfl

/-- A vector on a layer is on all layers below. -/
lemma members_antitone {low high : Nat} (h : low ≤ high) :
    contents.members high ⊆ contents.members low := by
  rintro id ⟨node, hnode, hlevel⟩
  exact ⟨node, hnode, by omega⟩

/-- A vector is stored in one form only. -/
lemma Stores.unique {bytes bytes' : Bytes} (h : contents.Stores id bytes)
    (h' : contents.Stores id bytes') : bytes = bytes' := by
  obtain ⟨node, layout, container, hnode, hlayout, hcontainer, hbytes⟩ := h
  obtain ⟨node', layout', container', hnode', hlayout', hcontainer', hbytes'⟩ := h'
  obtain rfl := Option.some.inj (hnode.symm.trans hnode')
  obtain rfl := Option.some.inj (hlayout.symm.trans hlayout')
  obtain rfl := Option.some.inj (hcontainer.symm.trans hcontainer')
  exact Except.ok.inj (hbytes.symm.trans hbytes')

/-- The neighbors of a vector are in its node. -/
lemma links_list (hnode : contents.node id = some node) :
    (contents.links layer).list id = node.neighborsAt layer := by
  simp [links, hnode]

/-- The parent of a vector is in its node. -/
lemma links_parent (hnode : contents.node id = some node) :
    (contents.links layer).parent id = node.parentAt layer := by
  simp [links, hnode]

/-! ## Contents that differ in links -/

/-- The second contents differ from the first in the links of some layers only. -/
structure Relinks (layers : Set Nat) (contents next : GraphContents) : Prop where
  header : next.header = contents.header
  container : next.container = contents.container
  absent : ∀ id, contents.node id = none → next.node id = none
  present : ∀ id node, contents.node id = some node → ∃ node', next.node id = some node' ∧
    node'.level = node.level ∧ node'.location = node.location ∧ (node.Shaped → node'.Shaped)
  links : ∀ layer, layer ∉ layers → next.links layer = contents.links layer

namespace Relinks

variable {layers more : Set Nat}

/-- Contents differ from themselves in no link. -/
lemma refl (layers : Set Nat) (contents : GraphContents) : Relinks layers contents contents where
  header := rfl
  container := rfl
  absent _ h := h
  present _ node h := ⟨node, h, rfl, rfl, fun h => h⟩
  links _ _ := rfl

/-- Links may be changed one after the other. -/
lemma trans (h : Relinks layers contents next) (h' : Relinks layers next last) :
    Relinks layers contents last where
  header := h'.header.trans h.header
  container := h'.container.trans h.container
  absent id hid := h'.absent id (h.absent id hid)
  present id node hnode := by
    obtain ⟨node', hnode', hlevel, hlocation, hshaped⟩ := h.present id node hnode
    obtain ⟨node'', hnode'', hlevel', hlocation', hshaped'⟩ := h'.present id node' hnode'
    exact ⟨node'', hnode'', hlevel'.trans hlevel, hlocation'.trans hlocation,
      fun hs => hshaped' (hshaped hs)⟩
  links layer hlayer := (h'.links layer hlayer).trans (h.links layer hlayer)

/-- Links may be changed on more layers. -/
lemma mono (h : Relinks layers contents next) (hle : layers ⊆ more) :
    Relinks more contents next :=
  { h with links := fun layer hlayer => h.links layer fun hin => hlayer (hle hin) }

/-- A node with new links was there with its level and its place before. -/
lemma exists_node (h : Relinks layers contents next) {node' : NodeRecord}
    (hnode' : next.node id = some node') : ∃ node, contents.node id = some node ∧
      node'.level = node.level ∧ node'.location = node.location ∧ (node.Shaped → node'.Shaped) := by
  cases hnode : contents.node id with
  | none =>
    rw [h.absent id hnode] at hnode'
    exact absurd hnode' (by simp)
  | some node =>
    obtain ⟨node'', hnode'', hrest⟩ := h.present id node hnode
    rw [hnode', Option.some.injEq] at hnode''
    exact ⟨node, rfl, hnode'' ▸ hrest⟩

/-- Changing links leaves each vector on its layers. -/
lemma members (h : Relinks layers contents next) (layer : Nat) :
    next.members layer = contents.members layer := by
  ext id
  constructor
  · rintro ⟨node', hnode', hle⟩
    obtain ⟨node, hnode, hlevel, _⟩ := h.exists_node hnode'
    exact ⟨node, hnode, hlevel ▸ hle⟩
  · rintro ⟨node, hnode, hle⟩
    obtain ⟨node', hnode', hlevel, _⟩ := h.present id node hnode
    exact ⟨node', hnode', hlevel ▸ hle⟩

/-- Changing links leaves the stored vectors. -/
lemma stores (h : Relinks layers contents next) {bytes : Bytes}
    (hstores : contents.Stores id bytes) : next.Stores id bytes := by
  obtain ⟨node, layout, container, hnode, hlayout, hcontainer, hbytes⟩ := hstores
  obtain ⟨node', hnode', _, hlocation, _⟩ := h.present id node hnode
  refine ⟨node', layout, container, hnode', h.header ▸ hlayout, ?_, hlocation ▸ hbytes⟩
  rw [h.container, hlocation, hcontainer]

/-- Changing links leaves the distances. -/
lemma measures (h : Relinks layers contents next) {codec : Codec} {query : Bytes}
    {candidate : Candidate} (hmeasures : contents.Measures codec query candidate) :
    next.Measures codec query candidate := by
  obtain ⟨bytes, hstores, hdistance⟩ := hmeasures
  exact ⟨bytes, h.stores hstores, hdistance⟩

/-- Changing links leaves each node with lists for its layers. -/
lemma shaped (h : Relinks layers contents next)
    (hshaped : ∀ id node, contents.node id = some node → node.Shaped) :
    ∀ id node, next.node id = some node → node.Shaped := by
  intro id node' hnode'
  obtain ⟨node, hnode, _, _, hkeep⟩ := h.exists_node hnode'
  exact hkeep (hshaped id node hnode)

end Relinks

/-- Replacing a node by one at the same place that has other links on one layer only.

**Proof sketch.** All other nodes stay, and on the other layers the links of the node do too. -/
lemma relinks_setNode {node' : NodeRecord} (hnode : contents.node id = some node)
    (hlevel : node'.level = node.level) (hlocation : node'.location = node.location)
    (hshaped : node.Shaped → node'.Shaped)
    (hneighbors : ∀ other, other ≠ layer → node'.neighborsAt other = node.neighborsAt other)
    (hparents : ∀ other, other ≠ layer → node'.parentAt other = node.parentAt other) :
    Relinks {layer} contents (contents.setNode id node') where
  header := rfl
  container := rfl
  absent other hother := by
    rw [node_setNode_of_ne fun h => by simp [h, hnode] at hother, hother]
  present other found hfound := by
    by_cases hid : other = id
    · subst hid
      obtain rfl := Option.some.inj (hnode.symm.trans hfound)
      exact ⟨node', node_setNode_self, hlevel, hlocation, hshaped⟩
    · exact ⟨found, by rw [node_setNode_of_ne hid, hfound], rfl, rfl, fun hs => hs⟩
  links other hother := by
    have hsame : ∀ v, v = id → contents.node v = some node := fun v hv => hv ▸ hnode
    simp only [links, node_setNode, Links.mk.injEq]
    constructor <;> funext v <;> split_ifs with hv
    · simp [hsame v hv, hneighbors other hother]
    · rfl
    · simp [hsame v hv, hparents other hother]
    · rfl

/-- Replacing the list of a node on one of its layers changes one link. -/
lemma relinks_setNeighbors (hnode : contents.node id = some node) (list : List VectorId) :
    Relinks {layer} contents
      (contents.setNode id { node with neighbors := node.neighbors.set layer list }) :=
  relinks_setNode hnode rfl rfl
    (fun hs => ⟨by simpa only [List.length_set] using hs.neighbors, hs.parents⟩)
    (fun other hother => by
      simp only [NodeRecord.neighborsAt, List.getElem?_set_ne (Ne.symm hother)])
    fun _ _ => rfl

/-- Replacing the parent of a node on one of its layers changes one link. -/
lemma relinks_setParent (hnode : contents.node id = some node) (parent : VectorId) :
    Relinks {layer} contents
      (contents.setNode id { node with parents := node.parents.set layer (some parent) }) :=
  relinks_setNode hnode rfl rfl
    (fun hs => ⟨hs.neighbors, by simpa only [List.length_set] using hs.parents⟩)
    (fun _ _ => rfl)
    fun other hother => by
      simp only [NodeRecord.parentAt, List.getElem?_set_ne (Ne.symm hother)]

end GraphContents

/-! ## Opened graphs -/

namespace FieldGraph

open GraphContents

/-- **An opened graph of a field holds some contents**, all of which can be read, and it knows which
nodes and containers have changed since it was opened from other contents. -/
structure Shows (graph : FieldGraph) (field : FieldRecord) (base contents : GraphContents) :
    Prop where
  name : graph.field = field.name
  codec : graph.codec = .ofOptions field.options
  header : graph.header = contents.header
  node : ∀ id, graph.nodes[id]? = (contents.node id).map .ok
  container : ∀ page, graph.containers[page]? = (contents.container page).map .ok
  node_same : ∀ id, id ∉ graph.changedNodes → contents.node id = base.node id
  node_changed : ∀ id ∈ graph.changedNodes, (contents.node id).isSome = true
  container_same : ∀ page, page ∉ graph.changedContainers →
    contents.container page = base.container page
  container_changed : ∀ page ∈ graph.changedContainers, (contents.container page).isSome = true

namespace Shows

variable {graph : FieldGraph} {field : FieldRecord} {base contents : GraphContents}
  {id other : VectorId} {node : NodeRecord} {layer : Nat} {query bytes : Bytes}

/-! ### Look-ups -/

/-- A graph has the vectors that its contents have nodes of. -/
lemma contains_eq (h : graph.Shows field base contents) (id : VectorId) :
    graph.contains id = (contents.node id).isSome := by
  have hnode := h.node id
  rw [FieldGraph.contains, Std.TreeMap.contains_eq_isSome_getElem?, hnode, Option.isSome_map]

/-- A node of the contents is found in the graph. -/
lemma node_eq (h : graph.Shows field base contents) (hnode : contents.node id = some node) :
    graph.node id = .ok node := by
  simp [FieldGraph.node, h.node id, hnode]

/-- The nodes of a graph are those of its contents. -/
lemma node_eq_ok_iff (h : graph.Shows field base contents) :
    graph.node id = .ok node ↔ contents.node id = some node := by
  refine ⟨fun hnode => ?_, h.node_eq⟩
  cases hfound : contents.node id with
  | none => simp [FieldGraph.node, h.node id, hfound] at hnode
  | some found => rw [Except.ok.inj ((h.node_eq hfound).symm.trans hnode)]

/-- A container of the contents is found in the graph. -/
lemma container_eq (h : graph.Shows field base contents) {page : PageId} {container : Container}
    (hcontainer : contents.container page = some container) :
    graph.container page = .ok container := by
  simp [FieldGraph.container, h.container page, hcontainer]

/-- The geometry of the containers follows from the header of the contents. -/
lemma layout_eq (h : graph.Shows field base contents) {layout : ContainerLayout}
    (hlayout : ContainerLayout.forVectorLength? contents.header.vectorLength = some layout) :
    graph.layout = .ok layout := by
  simp [FieldGraph.layout, h.header, hlayout]

/-- A graph answers the neighbors that its contents have. -/
lemma neighbors_eq (h : graph.Shows field base contents) (hnode : contents.node id = some node)
    (layer : Nat) : graph.neighbors layer id = .ok ((contents.links layer).list id) := by
  rw [FieldGraph.neighbors, h.node_eq hnode, Except.ok_bind, links_list hnode, Except.pure_eq_ok]

/-- A graph answers the parents that its contents have. -/
lemma parent_eq (h : graph.Shows field base contents) (hnode : contents.node id = some node)
    (layer : Nat) : graph.parent layer id = .ok ((contents.links layer).parent id) := by
  rw [FieldGraph.parent, h.node_eq hnode, Except.ok_bind, links_parent hnode, Except.pure_eq_ok]

/-- A graph answers the vectors that its contents store. -/
lemma vector_eq (h : graph.Shows field base contents) (hstores : contents.Stores id bytes) :
    graph.vector id = .ok bytes := by
  obtain ⟨node, layout, container, hnode, hlayout, hcontainer, hbytes⟩ := hstores
  rw [FieldGraph.vector, h.node_eq hnode, Except.ok_bind, h.layout_eq hlayout, Except.ok_bind,
    h.container_eq hcontainer, Except.ok_bind, hbytes]

/-- The distance to a stored vector can be measured. -/
lemma distanceTo_eq (h : graph.Shows field base contents) (hstores : contents.Stores id bytes)
    (query : Bytes) :
    graph.distanceTo query id = .ok ((Codec.ofOptions field.options).distance query bytes) := by
  rw [FieldGraph.distanceTo, h.vector_eq hstores, Except.ok_bind, h.codec, Except.pure_eq_ok]

/-- The distance between stored vectors can be measured. -/
lemma exists_between (h : graph.Shows field base contents) (hid : ∃ b, contents.Stores id b)
    (hother : ∃ b, contents.Stores other b) : ∃ d, graph.between id other = .ok d := by
  obtain ⟨bytes, hbytes⟩ := hid
  obtain ⟨bytes', hbytes'⟩ := hother
  exact ⟨_, by rw [FieldGraph.between, h.vector_eq hbytes, Except.ok_bind, h.distanceTo_eq hbytes']⟩

/-- A graph finds the edges of the tree that its contents have. -/
lemma treeEdges_eq (h : graph.Shows field base contents) (hnode : contents.node id = some node)
    (layer : Nat) {list : List VectorId}
    (hlist : ∀ other ∈ list, ∃ node, contents.node other = some node) :
    graph.treeEdges layer id list = .ok ((contents.links layer).edges id list) := by
  rw [FieldGraph.treeEdges, h.parent_eq hnode, Except.ok_bind]
  refine Except.filterM_eq_ok fun other hother => ?_
  obtain ⟨node', hnode'⟩ := hlist other hother
  by_cases hown : (contents.links layer).parent id = some other
  · simp [hown, Links.Joined]
  · simp [hown, Links.Joined, h.parent_eq hnode']

/-- A candidate carries its true distance on a layer exactly if it does in the contents. -/
lemma measures (h : graph.Shows field base contents) {candidate : Candidate}
    (hmeasures : contents.Measures (.ofOptions field.options) query candidate) (layer : Nat) :
    (graph.layer query layer).Measures candidate := by
  obtain ⟨bytes, hstores, hdistance⟩ := hmeasures
  exact (h.distanceTo_eq hstores query).trans (congrArg Except.ok hdistance)

/-- What a graph measures is the distance to the stored vector. -/
lemma measures_of (h : graph.Shows field base contents) {candidate : Candidate}
    (hstored : ∃ bytes, contents.Stores candidate.id bytes)
    (hmeasures : (graph.layer query layer).Measures candidate) :
    contents.Measures (.ofOptions field.options) query candidate := by
  obtain ⟨bytes, hstores⟩ := hstored
  exact ⟨bytes, hstores, Except.ok.inj ((h.distanceTo_eq hstores query).symm.trans hmeasures)⟩

/-- **A sound layer serves its members**, whose vectors are stored. -/
theorem serves (h : graph.Shows field base contents) {limit : Nat} {members : Set VectorId}
    (hsound : (contents.links layer).Sound limit members)
    (hstored : ∀ id ∈ members, ∃ bytes, contents.Stores id bytes) :
    (graph.layer query layer).Serves members where
  neighbors id hid := by
    obtain ⟨_, node, _, _, hnode, _⟩ := hstored id hid
    exact ⟨_, h.neighbors_eq hnode layer, hsound.mem id hid⟩
  distance id hid := by
    obtain ⟨bytes, hbytes⟩ := hstored id hid
    exact ⟨_, h.distanceTo_eq hbytes query⟩

/-- The edges of a sound layer are the entries of its lists. -/
lemma edge_iff (h : graph.Shows field base contents) (hnode : contents.node id = some node) :
    (graph.layer query layer).Edge id other ↔ other ∈ (contents.links layer).list id := by
  have hneighbors := h.neighbors_eq hnode layer
  constructor
  · rintro ⟨list, hlist, hmem⟩
    exact (Except.ok.inj (hneighbors.symm.trans hlist)) ▸ hmem
  · exact fun hmem => ⟨_, hneighbors, hmem⟩

/-! ### Changes -/

/-- Putting in a node changes one entry.

**Proof sketch.** Only what is said of the new node has to be looked at: it is changed, and it is
the one that has been put in. -/
lemma addNode (h : graph.Shows field base contents) (id : VectorId) (node : NodeRecord) :
    (graph.addNode id node).Shows field base (contents.setNode id node) :=
  { h with
    node := by
      intro other
      simp only [FieldGraph.addNode, node_setNode, Std.TreeMap.getElem?_insert,
        Std.LawfulEqCmp.compare_eq_iff_eq, @eq_comm _ other, h.node other]
      split_ifs <;> rfl
    node_same := by
      intro other hother
      simp only [FieldGraph.addNode, Std.TreeSet.mem_insert, Std.LawfulEqCmp.compare_eq_iff_eq,
        not_or] at hother
      rw [node_setNode_of_ne (Ne.symm hother.1), h.node_same other hother.2]
    node_changed := by
      intro other hother
      simp only [FieldGraph.addNode, Std.TreeSet.mem_insert,
        Std.LawfulEqCmp.compare_eq_iff_eq] at hother
      rw [node_setNode]
      split_ifs with heq
      · rfl
      · exact h.node_changed other (hother.resolve_left fun hid => heq hid.symm) }

/-- Putting in a container changes one entry.

**Proof sketch.** Only what is said of the new container has to be looked at: it is changed, and it
is the one that has been put in. -/
lemma setContainer (h : graph.Shows field base contents) (page : PageId)
    (container : Container) :
    (graph.setContainer page container).Shows field base (contents.setContainer page container) :=
  { h with
    container := by
      intro other
      simp only [FieldGraph.setContainer, container_setContainer, Std.TreeMap.getElem?_insert,
        Std.LawfulEqCmp.compare_eq_iff_eq, @eq_comm _ other, h.container other]
      split_ifs <;> rfl
    container_same := by
      intro other hother
      simp only [FieldGraph.setContainer, Std.TreeSet.mem_insert,
        Std.LawfulEqCmp.compare_eq_iff_eq, not_or] at hother
      rw [container_setContainer, if_neg (Ne.symm hother.1), h.container_same other hother.2]
    container_changed := by
      intro other hother
      simp only [FieldGraph.setContainer, Std.TreeSet.mem_insert,
        Std.LawfulEqCmp.compare_eq_iff_eq] at hother
      rw [container_setContainer]
      split_ifs with heq
      · rfl
      · exact h.container_changed other (hother.resolve_left fun hpage => heq hpage.symm) }

/-- Replacing the header changes the header. -/
lemma setHeader (h : graph.Shows field base contents) (header : GraphHeader) :
    ({ graph with header } : FieldGraph).Shows field base { contents with header } :=
  { h with header := rfl }

/-- Changing a node of a graph changes it in the contents. -/
lemma modifyNode (h : graph.Shows field base contents) (hnode : contents.node id = some node)
    (change : NodeRecord → NodeRecord) :
    (graph.modifyNode id change).Shows field base (contents.setNode id (change node)) := by
  have hstored : graph.nodes[id]? = some (.ok node) := by rw [h.node id, hnode]; rfl
  have hsame : graph.modifyNode id change = graph.addNode id (change node) := by
    simp [FieldGraph.modifyNode, hstored, FieldGraph.addNode]
  rw [hsame]
  exact h.addNode id (change node)

/-- **Replacing the list of a node** on one of its layers changes that list.

**Proof sketch.** The node has a list for the layer, which is the one that is replaced. -/
theorem exists_setNeighbors (h : graph.Shows field base contents)
    (hnode : contents.node id = some node) (hshaped : node.Shaped) (hlayer : layer ≤ node.level)
    (list : List VectorId) :
    ∃ next, (graph.setNeighbors layer id list).Shows field base next ∧
      Relinks {layer} contents next ∧
      (next.links layer).parent = (contents.links layer).parent ∧
      ∀ other, (next.links layer).list other =
        if other = id then list else (contents.links layer).list other := by
  have hlt : layer < node.neighbors.length := by
    rw [hshaped.neighbors]
    omega
  refine ⟨_, ?_, relinks_setNeighbors hnode list, ?_, fun other => ?_⟩
  · rw [FieldGraph.setNeighbors, h.node_eq hnode]
    simp only [hlt, if_true]
    exact h.modifyNode hnode _
  · funext other
    simp only [links, node_setNode]
    split_ifs with hid
    · simp [hid, hnode, NodeRecord.parentAt]
    · rfl
  · simp only [links, node_setNode]
    split_ifs with hid
    · simp [NodeRecord.neighborsAt, hlt]
    · rfl

/-- **Replacing the parent of a node** on one of its layers changes that parent.

**Proof sketch.** The node has room for a parent on the layer, which is the one that is replaced. -/
theorem exists_setParent (h : graph.Shows field base contents)
    (hnode : contents.node id = some node) (hshaped : node.Shaped) (hlayer : layer ≤ node.level)
    (parent : VectorId) :
    ∃ next, (graph.setParent layer id parent).Shows field base next ∧
      Relinks {layer} contents next ∧
      (next.links layer).list = (contents.links layer).list ∧
      ∀ other, (next.links layer).parent other =
        if other = id then some parent else (contents.links layer).parent other := by
  have hlt : layer < node.parents.length := by
    rw [hshaped.parents]
    omega
  refine ⟨_, ?_, relinks_setParent hnode parent, ?_, fun other => ?_⟩
  · rw [FieldGraph.setParent, h.node_eq hnode]
    simp only [hlt, if_true]
    exact h.modifyNode hnode _
  · funext other
    simp only [links, node_setNode]
    split_ifs with hid
    · simp [hid, hnode, NodeRecord.neighborsAt]
    · rfl
  · simp only [links, node_setNode]
    split_ifs with hid
    · simp [NodeRecord.parentAt, hlt]
    · rfl

end Shows

end FieldGraph

end Proximity

import Mathlib.Tactic.SplitIfs
import Proximity.Graph.Insertion
import Proximity.Proofs.Except

set_option relaxedAutoImplicit false
set_option autoImplicit false

/-!
# What linking leaves alone

Linking a node works on links only, whatever the state of the records: every node that can be read
before can be read after, on the same layers and in the same place, and the header and the
containers stay as they are. An insertion that succeeds adds one node and counts it.

## Main definitions

* `Proximity.FieldGraph.Rewires` — an opened graph that differs from another in links.

## Main results

* `Proximity.FieldGraph.rewires_setNeighbors`, `Proximity.FieldGraph.rewires_setParent` — a change
  of one node.
* `Proximity.FieldGraph.rewires_of_linkLayer`, `Proximity.FieldGraph.rewires_of_link` — linking a
  node.
* `Proximity.FieldGraph.exists_of_insert` — what an insertion that succeeds has done.
-/

namespace Proximity.FieldGraph

variable {graph next last : FieldGraph} {id : VectorId} {node : NodeRecord}

/-! ## Look-ups after a change -/

/-- A node that is put into a graph is found there, and the others stay. -/
lemma node_addNode (graph : FieldGraph) (id : VectorId) (node : NodeRecord) (other : VectorId) :
    (graph.addNode id node).node other = if other = id then .ok node else graph.node other := by
  simp only [FieldGraph.node, addNode, Std.TreeMap.getElem?_insert,
    Std.LawfulEqCmp.compare_eq_iff_eq, @eq_comm _ id other]
  split_ifs <;> rfl

/-- A container that is put into a graph is found there, and the others stay. -/
lemma setContainer_container (graph : FieldGraph) (page : PageId) (container : Container)
    (other : PageId) : (graph.setContainer page container).container other =
      if other = page then .ok container else graph.container other := by
  simp only [FieldGraph.container, setContainer, Std.TreeMap.getElem?_insert,
    Std.LawfulEqCmp.compare_eq_iff_eq, @eq_comm _ page other]
  split_ifs <;> rfl

/-- A node is found if there is one that can be read. -/
lemma node_eq_ok_iff_getElem? :
    graph.node id = .ok node ↔ graph.nodes[id]? = some (.ok node) := by
  rw [FieldGraph.node]
  cases graph.nodes[id]? <;> simp

/-- A vector with a node is in the graph. -/
lemma contains_of_node (h : graph.node id = .ok node) : graph.contains id = true := by
  rw [contains, Std.TreeMap.contains_eq_isSome_getElem?, node_eq_ok_iff_getElem?.mp h,
    Option.isSome_some]

/-- A node that is changed is put in place of the old one. -/
lemma modifyNode_eq (h : graph.node id = .ok node) (change : NodeRecord → NodeRecord) :
    graph.modifyNode id change = graph.addNode id (change node) := by
  simp [modifyNode, node_eq_ok_iff_getElem?.mp h, addNode]

/-! ## Changes of links -/

/-- **The second graph differs from the first in links**: every node that can be read stays on its
layers and in its place, and what is marked as changed besides can be read. -/
structure Rewires (graph next : FieldGraph) : Prop where
  field : next.field = graph.field
  codec : next.codec = graph.codec
  header : next.header = graph.header
  containers : next.containers = graph.containers
  changedContainers : next.changedContainers = graph.changedContainers
  kept : ∀ id node, graph.node id = .ok node → ∃ node', next.node id = .ok node' ∧
    node'.level = node.level ∧ node'.location = node.location
  changed : ∀ id ∈ next.changedNodes, id ∈ graph.changedNodes ∨ ∃ node, next.node id = .ok node

namespace Rewires

/-- A graph differs from itself in no link. -/
lemma refl (graph : FieldGraph) : graph.Rewires graph where
  field := rfl
  codec := rfl
  header := rfl
  containers := rfl
  changedContainers := rfl
  kept _ node h := ⟨node, h, rfl, rfl⟩
  changed _ h := .inl h

/-- Links may be changed one after the other.

**Proof sketch.** A node that is kept twice is kept, and what the first change has marked can still
be read after the second. -/
lemma trans (h : graph.Rewires next) (h' : next.Rewires last) : graph.Rewires last where
  field := h'.field.trans h.field
  codec := h'.codec.trans h.codec
  header := h'.header.trans h.header
  containers := h'.containers.trans h.containers
  changedContainers := h'.changedContainers.trans h.changedContainers
  kept id node hnode := by
    obtain ⟨node', hnode', hlevel, hlocation⟩ := h.kept id node hnode
    obtain ⟨node'', hnode'', hlevel', hlocation'⟩ := h'.kept id node' hnode'
    exact ⟨node'', hnode'', hlevel'.trans hlevel, hlocation'.trans hlocation⟩
  changed id hid := by
    rcases h'.changed id hid with hid | hnode
    · refine (h.changed id hid).imp_right fun ⟨node, hnode⟩ => ?_
      obtain ⟨node', hnode', _⟩ := h'.kept id node hnode
      exact ⟨node', hnode'⟩
    · exact .inr hnode

end Rewires

/-- Replacing a node by one on the same layers and in the same place changes links.

**Proof sketch.** The node keeps its layers and its place, and no other node is touched. -/
lemma rewires_addNode (hnode : graph.node id = .ok node) {node' : NodeRecord}
    (hlevel : node'.level = node.level) (hlocation : node'.location = node.location) :
    graph.Rewires (graph.addNode id node') where
  field := rfl
  codec := rfl
  header := rfl
  containers := rfl
  changedContainers := rfl
  kept other found hfound := by
    rw [node_addNode]
    split_ifs with hid
    · subst hid
      obtain rfl := Except.ok.inj (hnode.symm.trans hfound)
      exact ⟨node', rfl, hlevel, hlocation⟩
    · exact ⟨found, hfound, rfl, rfl⟩
  changed other hother := by
    simp only [addNode, Std.TreeSet.mem_insert, Std.LawfulEqCmp.compare_eq_iff_eq] at hother
    refine hother.symm.imp_right fun heq => ⟨node', ?_⟩
    rw [node_addNode, if_pos heq.symm]

/-- Replacing a list changes links. -/
theorem rewires_setNeighbors (graph : FieldGraph) (layer : Nat) (id : VectorId)
    (list : List VectorId) : graph.Rewires (graph.setNeighbors layer id list) := by
  rw [setNeighbors]
  cases hnode : graph.node id with
  | error e => exact .refl graph
  | ok node =>
    simp only
    split
    · rw [modifyNode_eq hnode]
      exact rewires_addNode hnode rfl rfl
    · exact .refl graph

/-- Replacing a parent changes links. -/
theorem rewires_setParent (graph : FieldGraph) (layer : Nat) (id parent : VectorId) :
    graph.Rewires (graph.setParent layer id parent) := by
  rw [setParent]
  cases hnode : graph.node id with
  | error e => exact .refl graph
  | ok node =>
    simp only
    split
    · rw [modifyNode_eq hnode]
      exact rewires_addNode hnode rfl rfl
    · exact .refl graph

/-! ## Linking -/

variable {layer limit width : Nat} {query : Bytes}

/-- Taking a node into a list changes links. -/
lemma rewires_of_connect {other : VectorId} (h : graph.connect layer limit id other = .ok next) :
    graph.Rewires next := by
  obtain ⟨list, _, h⟩ := Except.bind_eq_ok_iff.mp h
  split at h
  · rw [← Except.ok.inj h]
    exact .refl graph
  · dsimp only at h
    split at h
    · obtain ⟨kept, _, h⟩ := Except.bind_eq_ok_iff.mp h
      rw [← Except.ok.inj h]
      exact graph.rewires_setNeighbors layer id kept
    · rw [← Except.ok.inj h]
      exact graph.rewires_setNeighbors layer id _

/-- **Linking a node on one layer** changes links.

**Proof sketch.** The parent and the neighbors of the node are set, and connecting each of the
others changes links again. -/
theorem rewires_of_linkLayer {entries found : List Candidate}
    (h : graph.linkLayer id query limit width layer entries = .ok (next, found)) :
    graph.Rewires next := by
  obtain ⟨_, _, h⟩ := Except.bind_eq_ok_iff.mp h
  obtain ⟨parent, _, h⟩ := Except.bind_eq_ok_iff.mp h
  obtain ⟨_, _, h⟩ := Except.bind_eq_ok_iff.mp h
  obtain ⟨selected, _, h⟩ := Except.bind_eq_ok_iff.mp h
  obtain ⟨between, hothers, h⟩ := Except.bind_eq_ok_iff.mp h
  obtain ⟨after, hparent, h⟩ := Except.bind_eq_ok_iff.mp h
  obtain ⟨rfl, _⟩ := Prod.mk.inj (Except.ok.inj h)
  have hown := (graph.rewires_setParent layer id parent).trans
    ((graph.setParent layer id parent).rewires_setNeighbors layer id selected)
  have hall : graph.Rewires between :=
    Except.foldlM_preserves graph.Rewires
      (fun _ _ _ _ hnow hconnect => hnow.trans (rewires_of_connect hconnect)) hown hothers
  exact hall.trans (rewires_of_connect hparent)

/-- Linking a node on several layers changes links. -/
lemma rewires_of_linkLayers {count : Nat} {entries : List Candidate}
    (h : graph.linkLayers id query limit width count entries = .ok next) : graph.Rewires next := by
  induction count generalizing graph entries with
  | zero =>
    rw [← Except.ok.inj h]
    exact .refl graph
  | succ layer ih =>
    obtain ⟨⟨between, found⟩, hlink, h⟩ := Except.bind_eq_ok_iff.mp h
    exact (rewires_of_linkLayer hlink).trans (ih h)

/-- **Linking a node** on all its layers changes links. -/
theorem rewires_of_link {level : Nat} {entryPoint : VectorId}
    (h : graph.link id level limit width entryPoint = .ok next) : graph.Rewires next := by
  obtain ⟨_, _, h⟩ := Except.bind_eq_ok_iff.mp h
  obtain ⟨_, _, h⟩ := Except.bind_eq_ok_iff.mp h
  obtain ⟨_, _, h⟩ := Except.bind_eq_ok_iff.mp h
  exact rewires_of_linkLayers h

/-- **An insertion that succeeds** has added a node under a new name, changed links, and counted the
node.

**Proof sketch.** A name that is taken is refused. The first node is not linked; any other one is
linked layer by layer. -/
theorem exists_of_insert {location : SlotRef} {level : Nat}
    (h : graph.insert id location level limit width = .ok next) :
    graph.contains id = false ∧ ∃ linked,
      (graph.addNode id (.blank level location)).Rewires linked ∧
        next = { linked with header := countNode linked.header id level } := by
  have hnew : graph.contains id = false := by
    rw [insert] at h
    split at h
    · obtain ⟨_, herror, _⟩ := Except.bind_eq_ok_iff.mp h
      cases herror
    · next hnew => exact Bool.eq_false_iff.mpr hnew
  rw [insert, if_neg (Bool.eq_false_iff.mp hnew)] at h
  dsimp only at h
  refine ⟨hnew, ?_⟩
  cases hentry : (graph.addNode id (.blank level location)).header.entryPoint with
  | none =>
    rw [hentry] at h
    obtain ⟨linked, hlinked, h⟩ := Except.bind_eq_ok_iff.mp h
    rw [← Except.ok.inj hlinked] at h
    exact ⟨_, .refl _, (Except.ok.inj h).symm⟩
  | some entryPoint =>
    rw [hentry] at h
    obtain ⟨linked, hlinked, h⟩ := Except.bind_eq_ok_iff.mp h
    exact ⟨linked, rewires_of_link hlinked, (Except.ok.inj h).symm⟩

end Proximity.FieldGraph

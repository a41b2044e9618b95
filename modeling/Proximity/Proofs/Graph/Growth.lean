import Proximity.Proofs.Graph.Connectivity

set_option relaxedAutoImplicit false
set_option autoImplicit false

/-!
# How a graph grows

An insertion changes no more of a graph than it has to. On each layer that the new node shares with
the graph it gets as many neighbors as the limit and the layer allow, its parent among them. Only
the lists of these neighbors change, and each of them is drawn from what it was and the new node.
The header counts one node more, and searches start elsewhere only if the new node is higher than
all others.

## Main definitions

* `Proximity.GraphContents.Gains` — what the contents of a graph are after an insertion.

## Main results

* `Proximity.GraphContents.gains_of_relinks` — a graph gains a node if its shared layers do.
* `Proximity.FieldGraph.Shows.exists_gains` — an insertion succeeds, and the graph gains the node.
* `Proximity.FieldGraph.Connected.insert_gains` — so it does in a connected graph, which it keeps
  connected.
-/

namespace Proximity

/-- A node has the parents that another node has if it has them on every layer. -/
lemma NodeRecord.Shaped.parents_eq {node node' : NodeRecord} (h : node.Shaped)
    (h' : node'.Shaped) (hlevel : node'.level = node.level)
    (hparent : ∀ layer, node'.parentAt layer = node.parentAt layer) :
    node'.parents = node.parents := by
  refine List.ext_getElem (by rw [h'.parents, h.parents, hlevel]) fun layer hlt hlt' => ?_
  have hsame := hparent layer
  rwa [parentAt, parentAt, List.getElem?_eq_getElem hlt, List.getElem?_eq_getElem hlt'] at hsame

namespace GraphContents

/-- **A graph has gained a new node** at some level: what each layer has gained, and what has stayed
as it was. The first node of a graph shares no layer with it, and searches start there. The nodes
are counted in 64 bits. -/
structure Gains (contents : GraphContents) (limit : Nat) (id : VectorId) (location : SlotRef)
    (level : Nat) (next : GraphContents) : Prop where
  node_new : ∃ node, next.node id = some node ∧ node.Shaped ∧ node.level = level ∧
    node.location = location
  node_old : ∀ a, a ≠ id → ∀ node, contents.node a = some node → ∃ node', next.node a = some node' ∧
    node'.Shaped ∧ node'.level = node.level ∧ node'.location = node.location ∧
    node'.parents = node.parents
  node_none : ∀ a, a ≠ id → contents.node a = none → next.node a = none
  container : next.container = contents.container
  shared : ∀ layer, contents.Shares level layer →
    (contents.links layer).Gains limit (contents.members layer) id (next.links layer)
  above_new : ∀ layer, ¬ contents.Shares level layer →
    (next.links layer).list id = [] ∧ (next.links layer).parent id = none
  above_old : ∀ layer, ¬ contents.Shares level layer → ∀ a, a ≠ id →
    (next.links layer).list a = (contents.links layer).list a
  header_same : contents.header.entryPoint ≠ none → level ≤ contents.header.maxLevel →
    next.header = { contents.header with
      nodeCount := (contents.header.nodeCount + 1) % UInt64.size }
  header_higher : contents.header.entryPoint = none ∨ contents.header.maxLevel < level →
    next.header = { contents.header with
      nodeCount := (contents.header.nodeCount + 1) % UInt64.size
      entryPoint := some id
      maxLevel := level }

variable {contents next linked : GraphContents} {id : VectorId} {limit level : Nat}
  {location : SlotRef} {node : NodeRecord}

/-- Searches have somewhere to start in a graph that has gained a node. -/
lemma Gains.entryPoint_ne_none (h : contents.Gains limit id location level next) :
    next.header.entryPoint ≠ none := by
  by_cases hlow : contents.header.entryPoint ≠ none ∧ level ≤ contents.header.maxLevel
  · rw [h.header_same hlow.1 hlow.2]
    exact hlow.1
  · rw [not_and_or, not_not, Nat.not_le] at hlow
    rw [h.header_higher hlow]
    exact Option.some_ne_none id

/-- **A graph gains a new node if the layers that they share do**, and beyond these nothing has been
linked.

**Proof sketch.** On a shared layer all is said by what the layer has gained. On the others the
links are those from before the linking, where only the new node has been put in. -/
theorem gains_of_relinks (hlayered : contents.Layered limit)
    (hrelinks : Relinks {layer | contents.Shares level layer}
      (contents.setNode id (.blank level location)) linked)
    (hgains : ∀ layer, contents.Shares level layer →
      (contents.links layer).Gains limit (contents.members layer) id (linked.links layer)) :
    contents.Gains limit id location level
      { linked with header := FieldGraph.countNode contents.header id level } := by
  have hparent : ∀ a, a ≠ id → ∀ layer,
      (linked.links layer).parent a = (contents.links layer).parent a := by
    intro a ha layer
    by_cases hshares : contents.Shares level layer
    · exact (hgains layer hshares).parent_old a ha
    · rw [hrelinks.links layer hshares, (links_setNode_of_ne ha).2]
  exact {
    node_new := by
      obtain ⟨node, hnode, hlevel, hlocation, hshaped⟩ :=
        hrelinks.present id (.blank level location) node_setNode_self
      exact ⟨node, hnode, hshaped (blank_shaped level location), hlevel, hlocation⟩
    node_old := by
      intro a ha node hnode
      obtain ⟨node', hnode', hlevel, hlocation, hshaped⟩ :=
        hrelinks.present a node ((node_setNode_of_ne ha).trans hnode)
      have hold := hlayered.shaped a node hnode
      refine ⟨node', hnode', hshaped hold, hlevel, hlocation,
        hold.parents_eq (hshaped hold) hlevel fun layer => ?_⟩
      rw [← links_parent hnode', ← links_parent hnode, hparent a ha]
    node_none := fun a ha hnone => hrelinks.absent a ((node_setNode_of_ne ha).trans hnone)
    container := hrelinks.container
    shared := hgains
    above_new := by
      intro layer hnot
      change (linked.links layer).list id = [] ∧ (linked.links layer).parent id = none
      rw [hrelinks.links layer hnot, links_list node_setNode_self, links_parent node_setNode_self,
        neighborsAt_blank, parentAt_blank]
      exact ⟨rfl, rfl⟩
    above_old := by
      intro layer hnot a ha
      change (linked.links layer).list a = _
      rw [hrelinks.links layer hnot, (links_setNode_of_ne ha).1]
    header_same := by
      intro hsome hle
      rw [FieldGraph.countNode, if_neg]
      simp only [Bool.or_eq_true, Option.isNone_iff_eq_none, decide_eq_true_eq, not_or]
      exact ⟨hsome, Nat.not_lt.mpr hle⟩
    header_higher := by
      intro hhigher
      rw [FieldGraph.countNode, if_pos]
      simpa only [Bool.or_eq_true, Option.isNone_iff_eq_none, decide_eq_true_eq] using hhigher }

/-! ## Three nodes in a row -/

/-- Three vectors in a row and a fourth one without a node. The node in the middle has two
neighbors, one of which is its parent and one its child. -/
def row : GraphContents :=
  let bare : GraphContents := {
    header := { GraphHeader.blank with
      entryPoint := some ⟨1⟩, nodeCount := 3, rawLength := 4, vectorLength := 4 }
    node := fun _ => none
    container := fun page => if page = ⟨1⟩ then some ⟨[⟨1⟩, ⟨2⟩, ⟨3⟩, ⟨4⟩],
      #[0, 0, 0, 0, 0, 0, 128, 63, 0, 0, 0, 64, 0, 0, 192, 63]⟩ else none }
  ((bare.setNode ⟨1⟩ ⟨0, ⟨⟨1⟩, 0⟩, [[⟨2⟩]], [none]⟩).setNode ⟨2⟩
    ⟨0, ⟨⟨1⟩, 1⟩, [[⟨1⟩, ⟨3⟩]], [some ⟨1⟩]⟩).setNode ⟨3⟩ ⟨0, ⟨⟨1⟩, 2⟩, [[⟨2⟩]], [some ⟨2⟩]⟩

/-- The nodes of the row. -/
lemma node_row (h : row.node id = some node) :
    id = ⟨1⟩ ∧ node = ⟨0, ⟨⟨1⟩, 0⟩, [[⟨2⟩]], [none]⟩ ∨
      id = ⟨2⟩ ∧ node = ⟨0, ⟨⟨1⟩, 1⟩, [[⟨1⟩, ⟨3⟩]], [some ⟨1⟩]⟩ ∨
      id = ⟨3⟩ ∧ node = ⟨0, ⟨⟨1⟩, 2⟩, [[⟨2⟩]], [some ⟨2⟩]⟩ := by
  simp only [row, node_setNode] at h
  split_ifs at h with hthird hsecond hfirst
  · exact .inr (.inr ⟨hthird, (Option.some.inj h).symm⟩)
  · exact .inr (.inl ⟨hsecond, (Option.some.inj h).symm⟩)
  · exact .inl ⟨hfirst, (Option.some.inj h).symm⟩

/-- A node is on the only layer of the row if it is one of the three. -/
lemma mem_row_iff : id ∈ row.members 0 ↔ id = ⟨1⟩ ∨ id = ⟨2⟩ ∨ id = ⟨3⟩ := by
  constructor
  · rintro ⟨node, hnode, _⟩
    rcases node_row hnode with ⟨hid, _⟩ | ⟨hid, _⟩ | ⟨hid, _⟩
    · exact .inl hid
    · exact .inr (.inl hid)
    · exact .inr (.inr hid)
  · rintro (rfl | rfl | rfl) <;> exact ⟨_, rfl, Nat.le_refl 0⟩

/-- The links of the row are sound.

**Proof sketch.** Node by node. -/
lemma sound_row : (row.links 0).Sound 2 (row.members 0) where
  length_le id hid := by rcases mem_row_iff.mp hid with rfl | rfl | rfl <;> decide
  notMem_self id hid := by rcases mem_row_iff.mp hid with rfl | rfl | rfl <;> decide
  nodup id hid := by rcases mem_row_iff.mp hid with rfl | rfl | rfl <;> decide
  mem id hid := by
    simp only [mem_row_iff]
    rcases mem_row_iff.mp hid with rfl | rfl | rfl <;> decide
  parent_mem id hid other hother := by
    rw [mem_row_iff]
    rcases mem_row_iff.mp hid with rfl | rfl | rfl
    · cases hother
    · exact .inl (Option.some.inj hother).symm
    · exact .inr (.inl (Option.some.inj hother).symm)
  listed id hid other hother := by
    rcases mem_row_iff.mp hid with rfl | rfl | rfl
    · cases hother
    · exact Option.some.inj hother ▸ by decide
    · exact Option.some.inj hother ▸ by decide
  rooted := by
    refine ⟨⟨1⟩, mem_row_iff.mpr (.inl rfl), rfl, fun id hid => ?_⟩
    have hsecond : (row.links 0).Climbs ⟨2⟩ ⟨1⟩ := rfl
    have hthird : (row.links 0).Climbs ⟨3⟩ ⟨2⟩ := rfl
    rcases mem_row_iff.mp hid with rfl | rfl | rfl
    · exact .refl
    · exact .single hsecond
    · exact .head hthird (.single hsecond)

/-- The graph of the row keeps the invariant. -/
lemma layered_row : row.Layered 2 where
  shaped id node hnode := by
    rcases node_row hnode with ⟨_, rfl⟩ | ⟨_, rfl⟩ | ⟨_, rfl⟩ <;> exact ⟨rfl, rfl⟩
  level_le id node hnode := by
    rcases node_row hnode with ⟨_, rfl⟩ | ⟨_, rfl⟩ | ⟨_, rfl⟩ <;> exact Nat.le_refl 0
  blank hnone := by cases hnone
  entry id hid := by
    obtain rfl := Option.some.inj hid
    exact mem_row_iff.mpr (.inl rfl)
  sound _ layer hlayer := by
    obtain rfl := Nat.le_zero.mp hlayer
    exact sound_row

end GraphContents

namespace FieldGraph

open GraphContents

variable {graph : FieldGraph} {field : FieldRecord} {base contents : GraphContents} {limit : Nat}
  {id : VectorId} {location : SlotRef} {level : Nat}

/-- **An insertion into a layered graph succeeds, and the graph gains the node**, at any level and
with a beam of any width. The first node of a graph shares no layer with it. -/
theorem Shows.exists_gains (h : graph.Shows field base contents)
    (hlayered : contents.Layered limit) (hstored : contents.members 0 ⊆ contents.stored)
    (hlimit : 2 ≤ limit) (hid : contents.node id = none)
    (hplace : id ∈ (contents.setNode id (.blank level location)).stored) (width : Nat) :
    ∃ graph' next, graph.insert id location level limit width = .ok graph' ∧
      graph'.Shows field base next ∧ contents.Gains limit id location level next ∧
      next.Layered limit := by
  obtain ⟨graph', linked, hinsert, hnext, hrelinks, hgains, hlayered'⟩ :=
    h.exists_insert hlayered hstored hlimit hid hplace width
  exact ⟨graph', _, hinsert, hnext, gains_of_relinks hlayered hrelinks hgains, hlayered'⟩

/-- **The exact effect of an insertion** into a connected graph all vectors of which can be read, at
any level and with a beam of any width: it succeeds, the graph gains the new node and nothing else,
and stays connected. -/
theorem Connected.insert_gains (hconnected : graph.Connected limit)
    (h : graph.Shows field base contents) (hstored : contents.members 0 ⊆ contents.stored)
    (hlimit : 2 ≤ limit) (hid : contents.node id = none)
    (hplace : id ∈ (contents.setNode id (.blank level location)).stored) (width : Nat) :
    ∃ graph' next, graph.insert id location level limit width = .ok graph' ∧
      graph'.Shows field base next ∧ contents.Gains limit id location level next ∧
      graph'.Connected limit := by
  obtain ⟨_, hlayered⟩ := h.connected_iff.mp hconnected
  obtain ⟨graph', next, hinsert, hnext, hgains, hlayered'⟩ :=
    h.exists_gains hlayered hstored hlimit hid hplace width
  exact ⟨graph', next, hinsert, hnext, hgains,
    hnext.connected_iff.mpr ⟨hgains.entryPoint_ne_none, hlayered'⟩⟩

/-- The row, opened. -/
def openedRow : FieldGraph where
  field := "row"
  codec := ⟨.single, .single, .euclidean⟩
  header := row.header
  nodes := ((Std.TreeMap.empty.insert ⟨1⟩ (.ok ⟨0, ⟨⟨1⟩, 0⟩, [[⟨2⟩]], [none]⟩)).insert ⟨2⟩
    (.ok ⟨0, ⟨⟨1⟩, 1⟩, [[⟨1⟩, ⟨3⟩]], [some ⟨1⟩]⟩)).insert ⟨3⟩
      (.ok ⟨0, ⟨⟨1⟩, 2⟩, [[⟨2⟩]], [some ⟨2⟩]⟩)
  containers := Std.TreeMap.empty.insert ⟨1⟩ (.ok ⟨[⟨1⟩, ⟨2⟩, ⟨3⟩, ⟨4⟩],
    #[0, 0, 0, 0, 0, 0, 128, 63, 0, 0, 0, 64, 0, 0, 192, 63]⟩)
  changedNodes := ∅
  changedContainers := ∅

/-- The graph of the row shows its contents.

**Proof sketch.** Every look-up is one in the three nodes and the one container that have been put
in. -/
lemma shows_row :
    openedRow.Shows ⟨"row", { FieldOptions.ofShape 2 1 with metric := .euclidean }, 0⟩ row row where
  name := rfl
  codec := rfl
  header := rfl
  node id := by
    simp only [openedRow, row, node_setNode, Std.TreeMap.getElem?_insert,
      Std.LawfulEqCmp.compare_eq_iff_eq, @eq_comm _ id]
    split_ifs
    · rfl
    · rfl
    · rfl
    · exact Std.TreeMap.getElem?_emptyc
  container page := by
    simp only [openedRow, row, setNode, Std.TreeMap.getElem?_insert,
      Std.LawfulEqCmp.compare_eq_iff_eq, @eq_comm _ page]
    split_ifs
    · rfl
    · exact Std.TreeMap.getElem?_emptyc
  node_same _ _ := rfl
  node_changed id hid := absurd hid Std.TreeSet.not_mem_emptyc
  container_same _ _ := rfl
  container_changed page hpage := absurd hpage Std.TreeSet.not_mem_emptyc

/-- A fourth node comes in, on a higher layer, with room for two neighbors. The node nearest to it
has no room for a child. -/
theorem exists_gains_row :
    openedRow.Connected 2 ∧ row.members 0 ⊆ row.stored ∧
      ∃ graph' next, openedRow.insert ⟨4⟩ ⟨⟨1⟩, 3⟩ 1 2 2 = .ok graph' ∧
        graph'.Shows ⟨"row", { FieldOptions.ofShape 2 1 with metric := .euclidean }, 0⟩ row next ∧
        row.Gains 2 ⟨4⟩ ⟨⟨1⟩, 3⟩ 1 next ∧ graph'.Connected 2 := by
  have hconnected : openedRow.Connected 2 :=
    shows_row.connected_iff.mpr ⟨Option.some_ne_none _, layered_row⟩
  have hstored : row.members 0 ⊆ row.stored := by
    intro id hid
    rcases mem_row_iff.mp hid with rfl | rfl | rfl
    · exact ⟨[0, 0, 0, 0], _, _, _, rfl, rfl, rfl, rfl⟩
    · exact ⟨[0, 0, 128, 63], _, _, _, rfl, rfl, rfl, rfl⟩
    · exact ⟨[0, 0, 0, 64], _, _, _, rfl, rfl, rfl, rfl⟩
  have hplace : ⟨4⟩ ∈ (row.setNode ⟨4⟩ (.blank 1 ⟨⟨1⟩, 3⟩)).stored :=
    ⟨[0, 0, 192, 63], _, _, _, rfl, rfl, rfl, rfl⟩
  exact ⟨hconnected, hstored,
    hconnected.insert_gains shows_row hstored (Nat.le_refl 2) rfl hplace 2⟩

end FieldGraph

end Proximity

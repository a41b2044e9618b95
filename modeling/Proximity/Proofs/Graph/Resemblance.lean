import Proximity.Proofs.Graph.Insertion
import Proximity.Proofs.Graph.Lockstep
import Proximity.Proofs.Graph.Rewiring

set_option relaxedAutoImplicit false
set_option autoImplicit false

/-!
# Graphs that differ in places only

Which pages the containers of a field lie on depends on what else has been handed out. Two graphs of
one field resemble each other if they are equal but for these places and give the same vectors.
Places are never looked at but to read a vector, so such graphs go on in step.

## Main definitions

* `Proximity.GraphHeader.placeless`, `Proximity.NodeRecord.placeless` — records without places.
* `Proximity.GraphContents.Resembles`, `Proximity.FieldGraph.SameShape` — graphs that are equal but
  for places.
* `Proximity.FieldGraph.Resembles` — graphs that have equal vectors in these places as well.

## Main results

* `Proximity.FieldGraph.lockstep_resembles` — such graphs go on in step.
* `Proximity.FieldGraph.Rewires.vector_eq` — changes of links change no vector.
* `Proximity.FieldGraph.SameShape.resembles_of_insert` — taking in a node.
-/

namespace Proximity

/-! ## Records without places -/

/-- A header without the page of the open container. -/
def GraphHeader.placeless (header : GraphHeader) : GraphHeader :=
  { header with openContainer := none }

/-- A node without the slot of its vector. -/
def NodeRecord.placeless (node : NodeRecord) : NodeRecord :=
  { node with location := ⟨⟨0⟩, 0⟩ }

/-- Headers that are the same but for places. -/
lemma GraphHeader.placeless_eq_iff {a b : GraphHeader} : a.placeless = b.placeless ↔
    a.entryPoint = b.entryPoint ∧ a.maxLevel = b.maxLevel ∧ a.nodeCount = b.nodeCount ∧
      a.rawLength = b.rawLength ∧ a.vectorLength = b.vectorLength := by
  simp [placeless]

/-- Nodes that are the same but for places. -/
lemma NodeRecord.placeless_eq_iff {a b : NodeRecord} : a.placeless = b.placeless ↔
    a.level = b.level ∧ a.neighbors = b.neighbors ∧ a.parents = b.parents := by
  simp [placeless]

/-- **Two contents are equal but for places.** -/
structure GraphContents.Resembles (contents contents' : GraphContents) : Prop where
  header : contents'.header.placeless = contents.header.placeless
  node : ∀ id, (contents'.node id).map NodeRecord.placeless =
    (contents.node id).map NodeRecord.placeless

namespace FieldGraph

/-- **Two graphs of one field are equal but for places.** -/
structure SameShape (graph graph' : FieldGraph) : Prop where
  field : graph'.field = graph.field
  codec : graph'.codec = graph.codec
  header : graph'.header.placeless = graph.header.placeless
  node : ∀ id : VectorId, graph'.nodes[id]?.map (Except.map NodeRecord.placeless) =
    graph.nodes[id]?.map (Except.map NodeRecord.placeless)

/-- **Two graphs resemble each other**: they are equal but for places, and the vectors that lie in
these places are equal. -/
structure Resembles (graph graph' : FieldGraph) : Prop extends SameShape graph graph' where
  vector : ∀ id node, graph.node id = .ok node → graph'.vector id = graph.vector id

variable {graph graph' next next' : FieldGraph} {id : VectorId} {node node' : NodeRecord}

/-! ## Changes of links -/

/-- **Changes of links change no vector.** -/
theorem Rewires.vector_eq (h : graph.Rewires next) (hnode : graph.node id = .ok node) :
    next.vector id = graph.vector id := by
  obtain ⟨node', hnode', _, hlocation⟩ := h.kept id node hnode
  rw [vector, vector, hnode, hnode', Except.ok_bind, Except.ok_bind, layout, layout, h.header,
    container, container, h.containers, hlocation]

namespace SameShape

/-! ## Look-ups -/

/-- A node can be read in both graphs, and is the same but for its place, or it can be read in
neither.

**Proof sketch.** By what is found under the name in both graphs. -/
lemma node_cases (h : graph.SameShape graph') (id : VectorId) :
    (∃ node node', graph.node id = .ok node ∧ graph'.node id = .ok node' ∧
      node'.placeless = node.placeless) ∨
    ∃ e, graph.node id = .error e ∧ graph'.node id = .error e := by
  have hsame := h.node id
  rw [FieldGraph.node, FieldGraph.node]
  cases hfound : graph.nodes[id]? with
  | none =>
    rw [hfound, Option.map_none, Option.map_eq_none_iff] at hsame
    exact .inr ⟨_, rfl, by rw [hsame]⟩
  | some found =>
    rw [hfound, Option.map_some] at hsame
    obtain ⟨found', hfound', hmap⟩ := Option.map_eq_some_iff.mp hsame
    rw [hfound']
    cases found with
    | ok node =>
      cases found' with
      | ok node' => exact .inl ⟨node, node', rfl, rfl, Except.ok.inj hmap⟩
      | error e => cases hmap
    | error e =>
      cases found' with
      | ok node' => cases hmap
      | error e' =>
        obtain rfl := Except.error.inj hmap
        exact .inr ⟨e', rfl, rfl⟩

/-- A node is found in both graphs or in neither. -/
lemma keys_eq (h : graph.SameShape graph') : graph'.nodes.keys = graph.nodes.keys := by
  have hequiv : (graph'.nodes.map fun _ => Except.map NodeRecord.placeless).Equiv
      (graph.nodes.map fun _ => Except.map NodeRecord.placeless) :=
    Std.TreeMap.Equiv.of_forall_constGet?_eq fun id => by
      rw [Std.TreeMap.getElem?_map, Std.TreeMap.getElem?_map, h.node]
  have hkeys := hequiv.keys_eq
  rwa [Std.TreeMap.keys_map, Std.TreeMap.keys_map] at hkeys

/-- A node is put in, the same but for its place. -/
lemma addNode (h : graph.SameShape graph') (hsame : node'.placeless = node.placeless) :
    (graph.addNode id node).SameShape (graph'.addNode id node') where
  field := h.field
  codec := h.codec
  header := h.header
  node other := by
    simp only [FieldGraph.addNode, Std.TreeMap.getElem?_insert, Std.LawfulEqCmp.compare_eq_iff_eq]
    split_ifs
    · exact congrArg (fun record => some (Except.ok record)) hsame
    · exact h.node other

/-- Nodes are counted alike, whatever places the headers name. -/
lemma withHeader (h : graph.SameShape graph') {header header' : GraphHeader}
    (hheader : header'.placeless = header.placeless) :
    ({ graph with header } : FieldGraph).SameShape { graph' with header := header' } :=
  { h with header := hheader }

end SameShape

namespace Resembles

/-- **Graphs that resemble each other answer alike.**

**Proof sketch.** Answers do not depend on places, except for that of a vector, which is said to be
the same. -/
theorem answersAlike (h : graph.Resembles graph') : AnswersAlike graph graph' where
  codec := h.codec
  entryPoint := (GraphHeader.placeless_eq_iff.mp h.header).1
  maxLevel := (GraphHeader.placeless_eq_iff.mp h.header).2.1
  keys := h.keys_eq
  neighbors := by
    funext layer id
    rw [neighbors, neighbors]
    rcases h.node_cases id with ⟨node, node', hnode, hnode', hsame⟩ | ⟨e, herror, herror'⟩
    · rw [hnode, hnode', Except.ok_bind, Except.ok_bind, NodeRecord.neighborsAt,
        NodeRecord.neighborsAt, (NodeRecord.placeless_eq_iff.mp hsame).2.1]
    · rw [herror, herror']
  parent := by
    funext layer id
    rw [parent, parent]
    rcases h.node_cases id with ⟨node, node', hnode, hnode', hsame⟩ | ⟨e, herror, herror'⟩
    · rw [hnode, hnode', Except.ok_bind, Except.ok_bind, NodeRecord.parentAt, NodeRecord.parentAt,
        (NodeRecord.placeless_eq_iff.mp hsame).2.2]
    · rw [herror, herror']
  vector := by
    funext id
    rcases h.node_cases id with ⟨node, node', hnode, _, _⟩ | ⟨e, herror, herror'⟩
    · exact h.vector id node hnode
    · rw [FieldGraph.vector, FieldGraph.vector, herror, herror', Except.error_bind,
        Except.error_bind]

/-! ## Changes -/

/-- Replacing a node by one with other links, in its place, leaves the graphs resembling.

**Proof sketch.** The vectors stay as they are in both graphs, since no place has changed. -/
lemma replaceNode (h : graph.Resembles graph') (hnode : graph.node id = .ok node)
    (hnode' : graph'.node id = .ok node') {change change' : NodeRecord}
    (hlevel : change.level = node.level) (hlocation : change.location = node.location)
    (hlevel' : change'.level = node'.level) (hlocation' : change'.location = node'.location)
    (hsame : change'.placeless = change.placeless) :
    (graph.addNode id change).Resembles (graph'.addNode id change') := by
  refine ⟨h.toSameShape.addNode hsame, fun other found hfound => ?_⟩
  have hold : ∃ before, graph.node other = .ok before := by
    rw [node_addNode] at hfound
    split_ifs at hfound with hother
    · exact ⟨node, hother ▸ hnode⟩
    · exact ⟨found, hfound⟩
  obtain ⟨before, hbefore⟩ := hold
  have hbefore' : ∃ before', graph'.node other = .ok before' := by
    rcases h.node_cases other with ⟨_, before', _, hbefore', _⟩ | ⟨e, herror, _⟩
    · exact ⟨before', hbefore'⟩
    · rw [hbefore] at herror
      cases herror
  obtain ⟨before', hbefore'⟩ := hbefore'
  rw [(rewires_addNode hnode hlevel hlocation).vector_eq hbefore,
    (rewires_addNode hnode' hlevel' hlocation').vector_eq hbefore', h.vector other before hbefore]

/-- Graphs that resemble each other still do with the same new list of neighbors. -/
lemma setNeighbors (h : graph.Resembles graph') (layer : Nat) (id : VectorId)
    (list : List VectorId) :
    (graph.setNeighbors layer id list).Resembles (graph'.setNeighbors layer id list) := by
  rw [FieldGraph.setNeighbors, FieldGraph.setNeighbors]
  rcases h.node_cases id with ⟨node, node', hnode, hnode', hsame⟩ | ⟨e, herror, herror'⟩
  · obtain ⟨hlevel, hneighbors, hparents⟩ := NodeRecord.placeless_eq_iff.mp hsame
    rw [hnode, hnode']
    dsimp only
    rw [hneighbors]
    split
    · rw [modifyNode_eq hnode, modifyNode_eq hnode']
      refine h.replaceNode hnode hnode' rfl rfl rfl rfl (NodeRecord.placeless_eq_iff.mpr ?_)
      exact ⟨hlevel, by rw [hneighbors], hparents⟩
    · exact h
  · rw [herror, herror']
    exact h

/-- Graphs that resemble each other still do with the same new parent. -/
lemma setParent (h : graph.Resembles graph') (layer : Nat) (id parent : VectorId) :
    (graph.setParent layer id parent).Resembles (graph'.setParent layer id parent) := by
  rw [FieldGraph.setParent, FieldGraph.setParent]
  rcases h.node_cases id with ⟨node, node', hnode, hnode', hsame⟩ | ⟨e, herror, herror'⟩
  · obtain ⟨hlevel, hneighbors, hparents⟩ := NodeRecord.placeless_eq_iff.mp hsame
    rw [hnode, hnode']
    dsimp only
    rw [hparents]
    split
    · rw [modifyNode_eq hnode, modifyNode_eq hnode']
      refine h.replaceNode hnode hnode' rfl rfl rfl rfl (NodeRecord.placeless_eq_iff.mpr ?_)
      exact ⟨hlevel, hneighbors, by rw [hparents]⟩
    · exact h
  · rw [herror, herror']
    exact h

end Resembles

/-- **Graphs that resemble each other go on in step.** -/
theorem lockstep_resembles : Lockstep Resembles where
  answers h := h.answersAlike
  setNeighbors h layer id list := h.setNeighbors layer id list
  setParent h layer id parent := h.setParent layer id parent

/-! ## Contents -/

section Contents

variable {field : FieldRecord} {base base' contents contents' : GraphContents}

/-- Places can be taken out of a node that is found before or after it is read. -/
lemma map_placeless (found : Option NodeRecord) :
    (found.map (Except.ok : NodeRecord → Except IndexError NodeRecord)).map
      (Except.map NodeRecord.placeless) = (found.map NodeRecord.placeless).map .ok := by
  cases found <;> rfl

/-- Graphs that show contents which are equal but for places are equal but for places. -/
lemma sameShape_of_shows (h : contents.Resembles contents')
    (hshows : graph.Shows field base contents) (hshows' : graph'.Shows field base' contents') :
    graph.SameShape graph' where
  field := hshows'.name.trans hshows.name.symm
  codec := hshows'.codec.trans hshows.codec.symm
  header := by rw [hshows'.header, hshows.header, h.header]
  node id := by rw [hshows'.node, hshows.node, map_placeless, map_placeless, h.node]

/-- What graphs show that are equal but for places is equal but for places. -/
lemma SameShape.contents_resembles (h : graph.SameShape graph')
    (hshows : graph.Shows field base contents) (hshows' : graph'.Shows field base' contents') :
    contents.Resembles contents' where
  header := by rw [← hshows'.header, ← hshows.header, h.header]
  node id := by
    have hsame := h.node id
    rw [hshows'.node, hshows.node, map_placeless, map_placeless] at hsame
    exact Option.map_injective (fun _ _ heq => Except.ok.inj heq) hsame

end Contents

/-! ## Taking in a node -/

/-- The vectors of a graph depend on one number of its header. -/
lemma vector_withHeader (graph : FieldGraph) {header : GraphHeader}
    (h : header.vectorLength = graph.header.vectorLength) :
    ({ graph with header } : FieldGraph).vector = graph.vector := by
  have hlayout : ({ graph with header } : FieldGraph).layout = graph.layout := by
    rw [layout, layout, h]
  funext id
  rw [vector, vector, hlayout]
  rfl

/-- Counting a node does not look at places. -/
lemma placeless_countNode {header header' : GraphHeader}
    (h : header'.placeless = header.placeless) (id : VectorId) (level : Nat) :
    (countNode header' id level).placeless = (countNode header id level).placeless := by
  obtain ⟨hentry, hlevel, hcount, hraw, hlength⟩ := GraphHeader.placeless_eq_iff.mp h
  refine GraphHeader.placeless_eq_iff.mpr ?_
  simp only [countNode, hentry, hlevel, hcount]
  split <;> exact ⟨rfl, rfl, rfl, hraw, hlength⟩

/-- **Two insertions of a node** into graphs that are equal but for places, in any places, leave
graphs that resemble each other, if all vectors are equal in the end.

**Proof sketch.** Linking changes no vector, so vectors are equal as soon as the node is there. -/
theorem SameShape.resembles_of_insert (h : graph.SameShape graph') {location location' : SlotRef}
    {level limit width : Nat} (hinsert : graph.insert id location level limit width = .ok next)
    (hinsert' : graph'.insert id location' level limit width = .ok next')
    (hvector : ∀ other node, next.node other = .ok node → next'.vector other = next.vector other) :
    next.Resembles next' := by
  obtain ⟨hnew, linked, hrewires, hnext⟩ := exists_of_insert hinsert
  obtain ⟨hnew', linked', hrewires', hnext'⟩ := exists_of_insert hinsert'
  have hshape : (graph.addNode id (.blank level location)).SameShape
      (graph'.addNode id (.blank level location')) := h.addNode rfl
  have hadd : (graph.addNode id (.blank level location)).Resembles
      (graph'.addNode id (.blank level location')) := by
    refine ⟨hshape, fun other node hnode => ?_⟩
    obtain ⟨node', hnode', _⟩ := hrewires.kept other node hnode
    have hlast := hvector other node' (by rw [hnext]; exact hnode')
    rw [hnext, hnext', vector_withHeader linked (vectorLength_countNode _ _ _),
      vector_withHeader linked' (vectorLength_countNode _ _ _)] at hlast
    rcases hshape.node_cases other with ⟨_, node'', _, hnode'', _⟩ | ⟨e, herror, _⟩
    · rw [← hrewires.vector_eq hnode, ← hrewires'.vector_eq hnode'', hlast]
    · rw [hnode] at herror
      cases herror
  have hlinked := lockstep_resembles.insert (hnew'.trans hnew.symm) hadd limit width
  rw [hinsert, hinsert'] at hlinked
  obtain ⟨between, between', hbetween, rfl, rfl⟩ := hlinked.of_ok
  exact ⟨hbetween.toSameShape.withHeader (placeless_countNode hbetween.header id level), hvector⟩

end FieldGraph

end Proximity

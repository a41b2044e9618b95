import Proximity.Proofs.Graph.Connectivity
import Proximity.Proofs.Index.Founding

set_option relaxedAutoImplicit false
set_option autoImplicit false

/-!
# Connectivity of stored graphs

Every graph that an index stores is connected on each of its layers, with few neighbors at each
node: the parent links of a layer form one tree over all its nodes, each edge of the tree is in the
lists of both its ends, and so every node is found from the entry point along the lists.

## Main results

* `Proximity.Index.Reachable.exists_woven` — the layers of every graph that an index stores are
  woven.
-/

namespace Proximity

/-- **Every graph that an index stores is woven.** It has a node for each vector that the field has
accepted and no other. As long as there are none it has no layers; afterwards each of its layers is
one tree within lists that are no longer than the field asked for.

**Proof sketch.** What a transaction sees is sound, and the layers of a sound graph are linked. -/
theorem Index.Reachable.exists_woven {allowed : Operation → Prop} {index : Index} {view : Snapshot}
    {ledger : Ledger} {name : String} {field : FieldRecord} (h : Index.Reachable allowed index)
    (hsees : index.Sees view ledger) (hfind : Catalog.find view name = .ok field) :
    ∃ graph, FieldGraph.load view name (.ofOptions field.options) = .ok graph ∧
      2 ≤ field.options.edges ∧ field.options.edges ≤ FieldOptions.maxEdges ∧
      (∀ id, (∃ node, graph.node id = .ok node) ↔ id ∈ (ledger name).map Accepted.id) ∧
      (∀ id node, graph.node id = .ok node → node.level ≤ graph.header.maxLevel) ∧
      graph.header.maxLevel ≤ maxLevel ∧
      (ledger name = [] → graph.header.entryPoint = none) ∧
      (ledger name ≠ [] → ∀ layer, layer ≤ graph.header.maxLevel →
        graph.Woven field.options.edges layer) := by
  have hview := h.sound_view hsees
  obtain ⟨rfl, hvalid⟩ := hview.valid hfind
  obtain ⟨contents, hholds, hsound, _⟩ := hview.graph field.name field hfind
  obtain ⟨graph, hload, hshows⟩ := FieldGraph.exists_load hholds
  have hnodes : ∀ id, (∃ node, graph.node id = .ok node) ↔
      id ∈ (ledger field.name).map Accepted.id := by
    intro id
    simp only [← hsound.registered, hshows.node_eq_ok_iff]
    exact ⟨fun ⟨node, hnode⟩ => ⟨node, hnode, Nat.zero_le _⟩, fun ⟨node, hnode, _⟩ => ⟨node, hnode⟩⟩
  refine ⟨graph, hload, hvalid.options.two_le_edges, hvalid.options.edges_le, hnodes, ?_, ?_, ?_,
    ?_⟩
  · intro id node hnode
    rw [hshows.header]
    exact hsound.linked.level_le id node (hshows.node_eq_ok_iff.mp hnode)
  · rw [hshows.header]
    exact hsound.linked.maxLevel_le
  · intro hempty
    rw [hshows.header, hsound.blank hempty]
    rfl
  · intro hne layer hlayer
    rw [hshows.header] at hlayer
    refine hshows.woven hsound.linked.toLayered (fun hnone => hne ?_) hlayer
    refine List.eq_nil_iff_forall_not_mem.mpr fun vector hvector => ?_
    obtain ⟨node, hnode⟩ := (hnodes vector.id).mpr (List.mem_map_of_mem hvector)
    have hfound := hshows.node_eq_ok_iff.mp hnode
    rw [hsound.linked.blank hnone] at hfound
    cases hfound

/-- A layer with two nodes has an edge of its tree, which both ends list. -/
lemma FieldGraph.Woven.exists_lists {graph : FieldGraph} {limit layer : Nat}
    (h : graph.Woven limit layer) {a b : VectorId} (ha : a ∈ graph.layerNodes layer)
    (hb : b ∈ graph.layerNodes layer) (hne : a ≠ b) :
    ∃ child parent, graph.HasParent layer child parent ∧ graph.Lists layer child parent ∧
      graph.Lists layer parent child := by
  obtain ⟨root, ⟨hroot, hnone⟩, _⟩ := h.root
  obtain ⟨child, hchild, hother⟩ : ∃ child ∈ graph.layerNodes layer, child ≠ root := by
    by_cases heq : a = root
    · exact ⟨b, hb, fun hb' => hne (heq.trans hb'.symm)⟩
    · exact ⟨a, ha, heq⟩
  rcases (h.climbs root hroot hnone child hchild).cases_head with rfl | ⟨parent, hparent, _⟩
  · exact absurd rfl hother
  · exact ⟨child, parent, hparent, h.listed child hchild parent hparent⟩

/-- Four numbers on a line, at different levels: the lists have room for two neighbors, and a tree
links the four. -/
theorem Index.exists_woven_spread : ∃ index graph child parent,
    Index.Reachable Operation.IsShort index ∧ index.committed "v" = Accepted.spread ∧
      FieldGraph.load index.store.beginRead "v" (.ofOptions Index.onLine) = .ok graph ∧
      (∀ layer, layer ≤ graph.header.maxLevel → graph.Woven 2 layer) ∧
      graph.HasParent 0 child parent ∧ graph.Lists 0 child parent ∧ graph.Lists 0 parent child := by
  obtain ⟨index, field, _, hreachable, hcommitted, hrests, _, hoptions⟩ := Index.exists_spread
  obtain ⟨graph, hload, _, _, hnodes, _, _, _, hwoven⟩ :=
    hreachable.exists_woven .reader hrests.find
  rw [hcommitted] at hnodes hwoven
  rw [hoptions] at hload hwoven
  have hlayers := hwoven (List.cons_ne_nil _ _)
  have hlowest := hlayers 0 (Nat.zero_le _)
  have hmem : ∀ id ∈ Accepted.spread.map Accepted.id, id ∈ graph.layerNodes 0 := fun id hid => by
    obtain ⟨node, hnode⟩ := (hnodes id).mpr hid
    exact (hlowest.mem_iff id).mpr ⟨node, hnode, Nat.zero_le _⟩
  obtain ⟨child, parent, hedge⟩ :=
    hlowest.exists_lists (hmem ⟨1⟩ (by decide)) (hmem ⟨2⟩ (by decide)) (by decide)
  exact ⟨index, graph, child, parent, hreachable, hcommitted, hload, hlayers, hedge⟩

end Proximity

import Proximity.Proofs.Graph.Insertion

set_option relaxedAutoImplicit false
set_option autoImplicit false

/-!
# Connectivity of opened graphs

A layer of an opened graph is woven if its parent links are one tree over all its nodes and its
neighbor lists are short and hold every edge of the tree at both ends. A graph is connected if all
its layers are woven, and this is the invariant that insertions keep.

## Main definitions

* `Proximity.FieldGraph.layerNodes` — the nodes of a layer of an opened graph.
* `Proximity.FieldGraph.Woven` — a layer that is one tree within short lists.
* `Proximity.FieldGraph.Connected` — the connectivity invariant of a graph.

## Main results

* `Proximity.FieldGraph.Shows.woven` — the layers of a layered graph are woven.
* `Proximity.FieldGraph.Shows.connected_iff` — a graph is connected if it is layered and has nodes.
-/

namespace Proximity

namespace FieldGraph

/-- The nodes of a layer: those that have a list of neighbors and a parent slot on it. -/
def layerNodes (graph : FieldGraph) (layer : Nat) : Set VectorId :=
  {id | ∃ node, graph.node id = .ok node ∧ layer < node.neighbors.length ∧
    layer < node.parents.length}

/-- The first node lists the second as a neighbor on a layer. -/
def Lists (graph : FieldGraph) (layer : Nat) (a b : VectorId) : Prop :=
  ∃ list, graph.neighbors layer a = .ok list ∧ b ∈ list

/-- The second node is the parent of the first on a layer. -/
def HasParent (graph : FieldGraph) (layer : Nat) (a b : VectorId) : Prop :=
  graph.parent layer a = .ok (some b)

/-- **A layer is woven**: its parent links are one tree over all its nodes, the edges of which are
in the lists of both ends, and its lists are short and stay on the layer. All its nodes can be
reached from the entry point. -/
structure Woven (graph : FieldGraph) (limit layer : Nat) : Prop where
  mem_iff : ∀ id, id ∈ graph.layerNodes layer ↔
    ∃ node, graph.node id = .ok node ∧ layer ≤ node.level
  root : ∃! root, root ∈ graph.layerNodes layer ∧ graph.parent layer root = .ok none
  climbs : ∀ root ∈ graph.layerNodes layer, graph.parent layer root = .ok none →
    ∀ id ∈ graph.layerNodes layer, Relation.ReflTransGen (graph.HasParent layer) id root
  parent_mem : ∀ id ∈ graph.layerNodes layer, ∀ other, graph.HasParent layer id other →
    other ∈ graph.layerNodes layer
  listed : ∀ id ∈ graph.layerNodes layer, ∀ other, graph.HasParent layer id other →
    graph.Lists layer id other ∧ graph.Lists layer other id
  list : ∀ id ∈ graph.layerNodes layer, ∃ list, graph.neighbors layer id = .ok list ∧
    list.length ≤ limit ∧ id ∉ list ∧ list.Nodup ∧ ∀ other ∈ list, other ∈ graph.layerNodes layer
  reachable : ∃ entry, graph.header.entryPoint = some entry ∧ entry ∈ graph.layerNodes layer ∧
    ∀ id ∈ graph.layerNodes layer, Relation.ReflTransGen (graph.Lists layer) entry id

/-- **The connectivity invariant of a graph**: each node has a list and a parent slot on each of its
layers, none is higher than the top layer, and each layer up to there is woven. -/
structure Connected (graph : FieldGraph) (limit : Nat) : Prop where
  shaped : ∀ id node, graph.node id = .ok node → node.Shaped
  level_le : ∀ id node, graph.node id = .ok node → node.level ≤ graph.header.maxLevel
  woven : ∀ layer, layer ≤ graph.header.maxLevel → graph.Woven limit layer

namespace Shows

open GraphContents

variable {graph : FieldGraph} {field : FieldRecord} {base contents : GraphContents}
  {limit layer : Nat} {id : VectorId}

/-- The nodes of a layer are those that have a level that high. -/
lemma layerNodes_eq (h : graph.Shows field base contents)
    (hshaped : ∀ id node, contents.node id = some node → node.Shaped) (layer : Nat) :
    graph.layerNodes layer = contents.members layer := by
  ext id
  constructor
  · rintro ⟨node, hnode, hneighbors, _⟩
    have hfound := h.node_eq_ok_iff.mp hnode
    rw [(hshaped id node hfound).neighbors] at hneighbors
    exact ⟨node, hfound, Nat.le_of_lt_succ hneighbors⟩
  · rintro ⟨node, hnode, hle⟩
    refine ⟨node, h.node_eq hnode, ?_, ?_⟩
    · rw [(hshaped id node hnode).neighbors]
      exact Nat.lt_succ_of_le hle
    · rw [(hshaped id node hnode).parents]
      exact Nat.lt_succ_of_le hle

/-- The neighbor lists of an opened graph are the links of its contents. -/
lemma lists_iff (h : graph.Shows field base contents) (hid : id ∈ contents.members layer)
    {other : VectorId} : graph.Lists layer id other ↔ other ∈ (contents.links layer).list id := by
  obtain ⟨node, hnode, _⟩ := hid
  rw [Lists, h.neighbors_eq hnode]
  exact ⟨fun ⟨list, hlist, hother⟩ => Except.ok.inj hlist ▸ hother, fun hother => ⟨_, rfl, hother⟩⟩

/-- A graph answers the parents that its contents have. -/
lemma parent_eq_ok_iff (h : graph.Shows field base contents) (hid : id ∈ contents.members layer)
    {parent : Option VectorId} :
    graph.parent layer id = .ok parent ↔ (contents.links layer).parent id = parent := by
  obtain ⟨node, hnode, _⟩ := hid
  rw [h.parent_eq hnode, Except.ok.injEq]

/-- **The layers of a layered graph are woven.**

**Proof sketch.** The nodes of a layer, their lists and their parents are those of the links that
the contents have there. A walk down from the entry point starts on every layer. -/
theorem woven (h : graph.Shows field base contents) (hlayered : contents.Layered limit)
    (hsome : contents.header.entryPoint ≠ none) (hlayer : layer ≤ contents.header.maxLevel) :
    graph.Woven limit layer := by
  have hsound := hlayered.sound hsome layer hlayer
  have hnodes := h.layerNodes_eq hlayered.shaped layer
  obtain ⟨entry, hentry⟩ := Option.ne_none_iff_exists'.mp hsome
  have hstart : entry ∈ contents.members layer :=
    members_antitone hlayer (hlayered.entry entry hentry)
  exact {
    mem_iff := fun id => by
      rw [hnodes]
      exact ⟨fun ⟨node, hnode, hle⟩ => ⟨node, h.node_eq hnode, hle⟩,
        fun ⟨node, hnode, hle⟩ => ⟨node, h.node_eq_ok_iff.mp hnode, hle⟩⟩
    root := by
      obtain ⟨root, ⟨hroot, hnone⟩, hunique⟩ := hsound.root_unique
      rw [hnodes]
      refine ⟨root, ⟨hroot, (h.parent_eq_ok_iff hroot).mpr hnone⟩, ?_⟩
      rintro other ⟨hother, hparent⟩
      exact hunique other ⟨hother, (h.parent_eq_ok_iff hother).mp hparent⟩
    climbs := by
      rw [hnodes]
      intro root hroot hparent id hid
      obtain ⟨top, htop, hnone, hclimb⟩ := hsound.rooted
      obtain rfl : root = top := hsound.root_unique.unique
        ⟨hroot, (h.parent_eq_ok_iff hroot).mp hparent⟩ ⟨htop, hnone⟩
      -- A climb stays on the layer, where both have the same parents.
      induction hclimb id hid using Relation.ReflTransGen.head_induction_on with
      | refl => exact .refl
      | head hab _ ih =>
        exact .head ((h.parent_eq_ok_iff hid).mpr hab) (ih (hsound.parent_mem _ hid _ hab))
    parent_mem := by
      rw [hnodes]
      exact fun id hid other hother =>
        hsound.parent_mem id hid other ((h.parent_eq_ok_iff hid).mp hother)
    listed := by
      rw [hnodes]
      intro id hid other hother
      have hparent := (h.parent_eq_ok_iff hid).mp hother
      obtain ⟨hup, hdown⟩ := hsound.listed id hid other hparent
      exact ⟨(h.lists_iff hid).mpr hup,
        (h.lists_iff (hsound.parent_mem id hid other hparent)).mpr hdown⟩
    list := by
      rw [hnodes]
      intro id hid
      have ⟨node, hnode, _⟩ := hid
      exact ⟨_, h.neighbors_eq hnode layer, hsound.length_le id hid, hsound.notMem_self id hid,
        hsound.nodup id hid, hsound.mem id hid⟩
    reachable := by
      rw [hnodes, h.header]
      exact ⟨entry, hentry, hstart, fun id hid => hsound.reflTransGen
        (fun a ha b hb => (h.lists_iff ha).mpr hb) hstart hid⟩ }

/-- A woven layer is sound.

**Proof sketch.** What the graph answers for the nodes of a layer is what the contents have
there. -/
lemma sound_of_woven (h : graph.Shows field base contents)
    (hshaped : ∀ id node, contents.node id = some node → node.Shaped)
    (hwoven : graph.Woven limit layer) :
    (contents.links layer).Sound limit (contents.members layer) := by
  have hnodes := h.layerNodes_eq hshaped layer
  have hlist : ∀ id ∈ contents.members layer,
      ((contents.links layer).list id).length ≤ limit ∧ id ∉ (contents.links layer).list id ∧
      ((contents.links layer).list id).Nodup ∧
      ∀ other ∈ (contents.links layer).list id, other ∈ contents.members layer := by
    intro id hid
    obtain ⟨list, hneighbors, hrest⟩ := hwoven.list id (hnodes ▸ hid)
    obtain ⟨node, hnode, _⟩ := hid
    obtain rfl := Except.ok.inj ((h.neighbors_eq hnode layer).symm.trans hneighbors)
    exact hnodes ▸ hrest
  have hparent : ∀ id ∈ contents.members layer, ∀ other,
      (contents.links layer).parent id = some other → graph.HasParent layer id other :=
    fun id hid other hother => (h.parent_eq_ok_iff hid).mpr hother
  have hmem : ∀ id ∈ contents.members layer, ∀ other,
      (contents.links layer).parent id = some other → other ∈ contents.members layer :=
    fun id hid other hother => hnodes ▸ hwoven.parent_mem id (hnodes ▸ hid) other
      (hparent id hid other hother)
  exact {
    length_le := fun id hid => (hlist id hid).1
    notMem_self := fun id hid => (hlist id hid).2.1
    nodup := fun id hid => (hlist id hid).2.2.1
    mem := fun id hid => (hlist id hid).2.2.2
    parent_mem := hmem
    listed := by
      intro id hid other hother
      obtain ⟨hup, hdown⟩ := hwoven.listed id (hnodes ▸ hid) other (hparent id hid other hother)
      exact ⟨(h.lists_iff hid).mp hup, (h.lists_iff (hmem id hid other hother)).mp hdown⟩
    rooted := by
      obtain ⟨root, ⟨hroot, hnone⟩, _⟩ := hwoven.root
      have hclimbs := hwoven.climbs root hroot hnone
      rw [hnodes] at hroot hclimbs
      refine ⟨root, hroot, (h.parent_eq_ok_iff hroot).mp hnone, fun id hid => ?_⟩
      have hclimb := hclimbs id hid
      -- A climb stays on the layer, where both have the same parents.
      induction hclimb using Relation.ReflTransGen.head_induction_on with
      | refl => exact .refl
      | head hab _ ih =>
        have hlink := (h.parent_eq_ok_iff hid).mp hab
        exact .head hlink (ih (hmem _ hid _ hlink)) }

/-- **A graph is connected if it is layered and has nodes.**

**Proof sketch.** Both say of each layer that its links are sound, the one by the answers of the
graph and the other by its contents. -/
theorem connected_iff (h : graph.Shows field base contents) :
    graph.Connected limit ↔ contents.header.entryPoint ≠ none ∧ contents.Layered limit := by
  have hheader := h.header
  constructor
  · intro hconnected
    have hshaped : ∀ id node, contents.node id = some node → node.Shaped := fun id node hnode =>
      hconnected.shaped id node (h.node_eq hnode)
    obtain ⟨entry, hentry, hstart, _⟩ := (hconnected.woven _ (Nat.le_refl _)).reachable
    rw [hheader] at hentry
    have hsome : contents.header.entryPoint ≠ none := hentry ▸ Option.some_ne_none entry
    exact ⟨hsome, {
      shaped := hshaped
      level_le := fun id node hnode => hheader ▸ hconnected.level_le id node (h.node_eq hnode)
      blank := fun hnone => absurd hnone hsome
      entry := by
        intro id hid
        obtain rfl := Option.some.inj (hentry.symm.trans hid)
        rw [h.layerNodes_eq hshaped, hheader] at hstart
        exact hstart
      sound := fun _ layer hlayer =>
        h.sound_of_woven hshaped (hconnected.woven layer (hheader ▸ hlayer)) }⟩
  · rintro ⟨hsome, hlayered⟩
    exact {
      shaped := fun id node hnode => hlayered.shaped id node (h.node_eq_ok_iff.mp hnode)
      level_le := fun id node hnode =>
        hheader ▸ hlayered.level_le id node (h.node_eq_ok_iff.mp hnode)
      woven := fun layer hlayer => h.woven hlayered hsome (hheader ▸ hlayer) }

end Shows

end FieldGraph

end Proximity

import Proximity.Proofs.Graph.BeamWidth
import Proximity.Proofs.Graph.Linking
import Proximity.Random.Level

set_option relaxedAutoImplicit false
set_option autoImplicit false

/-!
# Inserting a node, and searching

Every layer of a graph up to its top layer is sound, and the entry point is on the top layer. A new
node is linked on the layers that it shares with the graph; on a layer above them it is the first
node. So the insertion of a node whose vector lies in its place succeeds and keeps the graph linked.
A search with a beam of some width finds that many vectors, or all of them.

## Main definitions

* `Proximity.GraphContents.Layered`, `Proximity.GraphContents.Linked` — the invariant of a graph,
  of any height and of a height that an index can reach.
* `Proximity.GraphContents.Shares` — a new node is linked on a layer.

## Main results

* `Proximity.FieldGraph.Shows.exists_insert` — an insertion succeeds and keeps the invariant, and
  the layers that the new node shares gain it.
* `Proximity.FieldGraph.Shows.exists_search` — a search succeeds, and what it finds.
* `Proximity.FieldGraph.Shows.search_improves` — a wider beam finds nothing worse.
-/

namespace Proximity

namespace GraphContents

/-- **The invariant of a graph**: each of its layers is sound, and searches start on the top one. -/
structure Layered (contents : GraphContents) (limit : Nat) : Prop where
  shaped : ∀ id node, contents.node id = some node → node.Shaped
  level_le : ∀ id node, contents.node id = some node → node.level ≤ contents.header.maxLevel
  blank : contents.header.entryPoint = none → ∀ id, contents.node id = none
  entry : ∀ id, contents.header.entryPoint = some id →
    id ∈ contents.members contents.header.maxLevel
  sound : contents.header.entryPoint ≠ none → ∀ layer, layer ≤ contents.header.maxLevel →
    (contents.links layer).Sound limit (contents.members layer)

/-- The invariant of a graph that is no higher than the levels that are drawn. -/
structure Linked (contents : GraphContents) (limit : Nat) : Prop extends
    contents.Layered limit where
  maxLevel_le : contents.header.maxLevel ≤ Proximity.maxLevel

/-- A new node with some level is linked on a layer: the graph has a node there already. -/
def Shares (contents : GraphContents) (level layer : Nat) : Prop :=
  contents.header.entryPoint ≠ none ∧ layer ≤ level ∧ layer ≤ contents.header.maxLevel

variable {contents next : GraphContents} {limit layer : Nat} {id : VectorId}

/-- Whether a graph is layered depends on its nodes and on where searches start. -/
lemma Layered.congr (h : contents.Layered limit) (hnode : next.node = contents.node)
    (hentry : next.header.entryPoint = contents.header.entryPoint)
    (hmax : next.header.maxLevel = contents.header.maxLevel) : next.Layered limit := by
  have hmembers : ∀ layer, next.members layer = contents.members layer := fun layer => by
    simp only [members, hnode]
  have hlinks : ∀ layer, next.links layer = contents.links layer := fun layer => by
    simp only [links, hnode]
  exact {
    shaped := by rw [hnode]; exact h.shaped
    level_le := by rw [hnode, hmax]; exact h.level_le
    blank := by rw [hnode, hentry]; exact h.blank
    entry := by rw [hentry, hmax, hmembers]; exact h.entry
    sound := by
      intro hsome layer hlayer
      rw [hlinks, hmembers]
      exact h.sound (hentry ▸ hsome) layer (hmax ▸ hlayer) }

/-- Links depend on the nodes, the entry point and the highest level. -/
lemma Linked.congr (h : contents.Linked limit) (hnode : next.node = contents.node)
    (hentry : next.header.entryPoint = contents.header.entryPoint)
    (hmax : next.header.maxLevel = contents.header.maxLevel) : next.Linked limit :=
  { h.toLayered.congr hnode hentry hmax with maxLevel_le := hmax ▸ h.maxLevel_le }

/-- Above its layers, and as long as there is nowhere to start, a layered graph has no nodes. -/
lemma Layered.members_eq_empty (h : contents.Layered limit)
    (hlayer : ¬(contents.header.entryPoint ≠ none ∧ layer ≤ contents.header.maxLevel)) :
    contents.members layer = ∅ := by
  refine Set.eq_empty_of_forall_notMem fun other => ?_
  rintro ⟨node, hnode, hon⟩
  refine hlayer ⟨fun hnone => ?_, hon.trans (h.level_le other node hnode)⟩
  rw [h.blank hnone] at hnode
  exact absurd hnode (by simp)

/-- A node without neighbors has lists for its layers. -/
lemma blank_shaped (level : Nat) (location : SlotRef) :
    (NodeRecord.blank level location).Shaped where
  neighbors := List.length_replicate
  parents := List.length_replicate

/-- A new node has no neighbors. -/
@[simp]
lemma neighborsAt_blank (level : Nat) (location : SlotRef) (layer : Nat) :
    (NodeRecord.blank level location).neighborsAt layer = [] := by
  simp only [NodeRecord.neighborsAt, NodeRecord.blank, List.getElem?_replicate]
  split_ifs <;> rfl

/-- A new node has no parent. -/
@[simp]
lemma parentAt_blank (level : Nat) (location : SlotRef) (layer : Nat) :
    (NodeRecord.blank level location).parentAt layer = none := by
  simp only [NodeRecord.parentAt, NodeRecord.blank, List.getElem?_replicate]
  split_ifs <;> rfl

/-! ## A node that has been put in -/

section NewNode

variable {node : NodeRecord}

/-- A vector without a node is on no layer. -/
lemma notMem_members (hid : contents.node id = none) : id ∉ contents.members layer := by
  rintro ⟨node, hnode, _⟩
  rw [hid] at hnode
  exact absurd hnode (by simp)

/-- A new node is on the layers up to its level.

**Proof sketch.** The new node is looked at apart from the others, of which it is none. -/
lemma members_setNode (hid : contents.node id = none) : (contents.setNode id node).members layer =
    if layer ≤ node.level then insert id (contents.members layer) else contents.members layer := by
  have hother : ∀ other, other ≠ id →
      (other ∈ (contents.setNode id node).members layer ↔ other ∈ contents.members layer) := by
    intro other hne
    simp only [members, Set.mem_ofPred_eq, node_setNode_of_ne hne]
  ext other
  by_cases hother' : other = id
  · subst hother'
    have hmem : other ∈ (contents.setNode other node).members layer ↔ layer ≤ node.level := by
      simp [members]
    have hnot : other ∉ contents.members layer := notMem_members hid
    rw [hmem]
    split_ifs with hle
    · simp [hle]
    · simp [hle, hnot]
  · rw [hother other hother']
    split_ifs <;> simp [hother']

/-- A new node leaves the links of the others. -/
lemma links_setNode_of_ne {other : VectorId} (h : other ≠ id) :
    ((contents.setNode id node).links layer).list other = (contents.links layer).list other ∧
      ((contents.setNode id node).links layer).parent other =
        (contents.links layer).parent other := by
  simp only [links, node_setNode_of_ne h, and_self]

/-- A sound layer stays sound for its old members. -/
lemma sound_setNode (hid : contents.node id = none)
    (h : (contents.links layer).Sound limit (contents.members layer)) :
    ((contents.setNode id node).links layer).Sound limit (contents.members layer) := by
  have hne : ∀ other ∈ contents.members layer, other ≠ id := fun other hother heq =>
    notMem_members hid (heq ▸ hother)
  exact h.congr (fun other hother => (links_setNode_of_ne (hne other hother)).1)
    fun other hother => (links_setNode_of_ne (hne other hother)).2

/-- A new node takes none away. -/
lemma stored_setNode (hid : contents.node id = none) :
    contents.stored ⊆ (contents.setNode id node).stored := by
  rintro other ⟨bytes, node', layout, container, hnode', hrest⟩
  have hne : other ≠ id := by
    rintro rfl
    rw [hid] at hnode'
    exact absurd hnode' (by simp)
  exact ⟨bytes, node', layout, container, by rw [node_setNode_of_ne hne, hnode'], hrest⟩

/-- A node that has been put in is ready to be linked on a layer that it shares with the graph.

**Proof sketch.** The new node has empty lists on the layer, and the links of the others are sound
as before. -/
lemma Layered.ready (h : contents.Layered limit) (hstored : contents.members 0 ⊆ contents.stored)
    (hfinite : (contents.members 0).Finite) (hid : contents.node id = none) {level : Nat}
    {location : SlotRef} (hplace : id ∈ (contents.setNode id (.blank level location)).stored)
    (hshares : contents.Shares level layer) :
    Ready (contents.setNode id (.blank level location)) limit layer (contents.members layer)
      id where
  shaped other node hnode := by
    rw [node_setNode] at hnode
    split_ifs at hnode with hother
    · exact Option.some.inj hnode ▸ blank_shaped level location
    · exact h.shaped other node hnode
  sound := sound_setNode hid (h.sound hshares.1 layer hshares.2.2)
  finite := hfinite.subset (members_antitone (Nat.zero_le layer))
  members_on := by
    rw [members_setNode hid, if_pos (show layer ≤ (NodeRecord.blank _ _).level from hshares.2.1)]
    exact Set.subset_insert _ _
  new_on := by
    rw [members_setNode hid, if_pos (show layer ≤ (NodeRecord.blank _ _).level from hshares.2.1)]
    exact Set.mem_insert _ _
  members_stored :=
    ((members_antitone (Nat.zero_le layer)).trans hstored).trans (stored_setNode hid)
  new_stored := hplace
  new := notMem_members hid

end NewNode

end GraphContents

/-! ## The header -/

namespace FieldGraph

/-- The highest level is that of the first node, or no less than that of the new one. -/
lemma maxLevel_countNode (header : GraphHeader) (id : VectorId) (level : Nat) :
    (countNode header id level).maxLevel =
      if header.entryPoint = none then level else max header.maxLevel level := by
  rw [countNode]
  cases header.entryPoint with
  | none => rfl
  | some entryPoint =>
    simp only [Option.isNone_some, Bool.false_or, decide_eq_true_eq, reduceCtorEq, if_false]
    split_ifs <;> simp only <;> omega

/-- The highest level is bounded as the levels are. -/
lemma maxLevel_countNode_le {header : GraphHeader} {bound : Nat} (hle : header.maxLevel ≤ bound)
    (id : VectorId) {level : Nat} (hlevel : level ≤ bound) :
    (countNode header id level).maxLevel ≤ bound := by
  rw [maxLevel_countNode]
  split_ifs
  · exact hlevel
  · omega

/-- The nodes are counted in 64 bits. -/
@[simp]
lemma nodeCount_countNode (header : GraphHeader) (id : VectorId) (level : Nat) :
    (countNode header id level).nodeCount = (header.nodeCount + 1) % UInt64.size := by
  rw [countNode]
  split_ifs <;> rfl

/-- Counting a node leaves the length of the vectors. -/
@[simp]
lemma rawLength_countNode (header : GraphHeader) (id : VectorId) (level : Nat) :
    (countNode header id level).rawLength = header.rawLength := by
  rw [countNode]
  split_ifs <;> rfl

/-- Counting a node leaves the length of the stored vectors. -/
@[simp]
lemma vectorLength_countNode (header : GraphHeader) (id : VectorId) (level : Nat) :
    (countNode header id level).vectorLength = header.vectorLength := by
  rw [countNode]
  split_ifs <;> rfl

/-- Counting a node leaves the container with free slots. -/
@[simp]
lemma openContainer_countNode (header : GraphHeader) (id : VectorId) (level : Nat) :
    (countNode header id level).openContainer = header.openContainer := by
  rw [countNode]
  split_ifs <;> rfl

/-- Searches start on the top layer: from the new node if its level is the highest, or from where
they did. -/
lemma entryPoint_countNode (header : GraphHeader) (id : VectorId) (level : Nat) :
    (countNode header id level).entryPoint = some id ∧
        (countNode header id level).maxLevel = level ∨
      (countNode header id level).entryPoint = header.entryPoint ∧
        (countNode header id level).maxLevel = header.maxLevel ∧ header.entryPoint ≠ none := by
  rw [countNode]
  cases header.entryPoint with
  | none => exact .inl ⟨rfl, rfl⟩
  | some entryPoint =>
    simp only [Option.isNone_some, Bool.false_or, decide_eq_true_eq]
    split_ifs
    · exact .inl ⟨rfl, rfl⟩
    · exact .inr ⟨rfl, rfl, Option.some_ne_none _⟩

end FieldGraph

namespace FieldGraph.Shows

open GraphContents

variable {graph : FieldGraph} {field : FieldRecord} {base contents : GraphContents}
  {id : VectorId} {limit level count : Nat} {members : Nat → Set VectorId} {query : Bytes}

/-- The nodes of an opened graph are finitely many. -/
lemma finite_members (h : graph.Shows field base contents) (layer : Nat) :
    (contents.members layer).Finite := by
  refine (List.finite_toSet graph.nodes.keys).subset ?_
  rintro id ⟨node, hnode, _⟩
  exact mem_keys_of_node (h.node_eq hnode)

/-! ## Linking on several layers -/

/-- Linking a node on all layers below `count` succeeds, and each of them gains the node.

**Proof sketch.** Induction on the layers from the highest down. Linking on one layer leaves the
layers below ready and the layers above as they are. -/
lemma exists_linkLayers (h : graph.Shows field base contents)
    (hready : ∀ layer, layer < count → Ready contents limit layer (members layer) id)
    (hnested : ∀ low high, low ≤ high → members high ⊆ members low) (hlimit : 2 ≤ limit)
    (width : Nat) {entries : List Candidate} (hne : entries ≠ [])
    (hentries : ∀ e ∈ entries, e.id ∈ members (count - 1) ∧
      contents.Measures (.ofOptions field.options) query e) :
    ∃ graph' next, graph.linkLayers id query limit width count entries = .ok graph' ∧
      graph'.Shows field base next ∧ Relinks {layer | layer < count} contents next ∧
      ∀ layer, layer < count →
        (contents.links layer).Gains limit (members layer) id (next.links layer) := by
  induction count generalizing graph contents entries with
  | zero => exact ⟨graph, contents, rfl, h, .refl _ _, fun layer hlayer => absurd hlayer (by omega)⟩
  | succ top ih =>
    obtain ⟨graph₁, between, found, hlink, hbetween, hrelinks, hgains, hfound, hmeasured⟩ :=
      h.exists_linkLayer (hready top (by omega)) hlimit width hne hentries
    have hother : ∀ layer, layer < top → layer ∉ ({top} : Set Nat) := by
      intro layer hlayer hin
      exact absurd (Set.mem_singleton_iff.mp hin) (Nat.ne_of_lt hlayer)
    obtain ⟨graph₂, next, hrest, hnext, hrelinks', hbelow⟩ := ih hbetween
      (fun layer hlayer => (hready layer (by omega)).relinks hrelinks (hother layer hlayer))
      hfound fun c hc => ⟨hnested _ top (by omega) (hmeasured c hc).1,
        hrelinks.measures (hmeasured c hc).2⟩
    refine ⟨graph₂, next, by rw [FieldGraph.linkLayers, hlink, Except.ok_bind]; exact hrest, hnext,
      ?_, fun layer hlayer => ?_⟩
    · refine (hrelinks.mono ?_).trans (hrelinks'.mono ?_)
      · rintro layer rfl
        exact Nat.lt_succ_self layer
      · exact fun layer hlayer => Nat.lt_succ_of_lt hlayer
    · by_cases htop : layer = top
      · subst htop
        rw [hrelinks'.links layer (by simp)]
        exact hgains
      · have hlt : layer < top := by omega
        exact hrelinks.links layer (hother layer hlt) ▸ hbelow layer hlt

/-- **Linking a new node succeeds**, and the layers that it shares with the graph gain it.

**Proof sketch.** The descent goes through layers whose members can all be read, down to the highest
one that the node shares. From there on the layers are linked one by one, each from the candidates
found on the one above. -/
theorem exists_link {level : Nat} {location : SlotRef}
    (h : graph.Shows field base (contents.setNode id (.blank level location)))
    (hlayered : contents.Layered limit) (hstored : contents.members 0 ⊆ contents.stored)
    (hfinite : (contents.members 0).Finite) (hlimit : 2 ≤ limit)
    (hid : contents.node id = none)
    (hplace : id ∈ (contents.setNode id (.blank level location)).stored) (width : Nat)
    {entryPoint : VectorId} (hentry : contents.header.entryPoint = some entryPoint) :
    ∃ graph' next, graph.link id level limit width entryPoint = .ok graph' ∧
      graph'.Shows field base next ∧
      Relinks {layer | contents.Shares level layer} (contents.setNode id (.blank level location))
        next ∧
      ∀ layer, contents.Shares level layer →
        (contents.links layer).Gains limit (contents.members layer) id (next.links layer) := by
  obtain ⟨query, hquery⟩ := hplace
  have hplace : id ∈ (contents.setNode id (.blank level location)).stored := ⟨query, hquery⟩
  have hsome : contents.header.entryPoint ≠ none := by rw [hentry]; exact Option.some_ne_none _
  have hallstored : ∀ layer, contents.members layer ⊆
      (contents.setNode id (.blank level location)).stored := fun layer =>
    ((members_antitone (Nat.zero_le layer)).trans hstored).trans (stored_setNode hid)
  set top := contents.header.maxLevel with htop
  have hstart : entryPoint ∈ contents.members top := hlayered.entry entryPoint hentry
  have hserves : ∀ layer, layer < level + 1 + (top - level) →
      (graph.layer query layer).Serves (contents.members layer) := by
    intro layer _
    by_cases hlayer : layer ≤ top
    · exact h.serves (sound_setNode hid (hlayered.sound hsome layer hlayer)) (hallstored layer)
    · have hempty : ∀ other, other ∉ contents.members layer := by
        rintro other ⟨node, hnode, hle⟩
        have hlevel := hlayered.level_le other node hnode
        omega
      exact ⟨fun other hother => absurd hother (hempty other),
        fun other hother => absurd hother (hempty other)⟩
  obtain ⟨entry, hcandidate, rfl, hmeasures⟩ := (hserves top (by omega)).candidate hstart
  obtain ⟨best, hdescend, hbest, hbestmeasures⟩ := exists_descendLayers hserves
    (fun _ _ => members_antitone) (fun _ _ _ hm => hm) (by omega) hstart hmeasures
  have hready : ∀ layer, layer < min level top + 1 →
      Ready (contents.setNode id (.blank level location)) limit layer (contents.members layer) id :=
    fun layer hlayer => hlayered.ready hstored hfinite hid hplace ⟨hsome, by omega, by omega⟩
  have hbestin : best.id ∈ contents.members (min level top + 1 - 1) :=
    members_antitone (by omega) hbest
  obtain ⟨graph', next, hlink, hnext, hrelinks, hgains⟩ := h.exists_linkLayers hready
    (fun _ _ => members_antitone) hlimit width (List.cons_ne_nil best [])
    (fun e he => by
      obtain rfl := List.mem_singleton.mp he
      exact ⟨hbestin, h.measures_of (hallstored _ hbestin) hbestmeasures⟩)
  have hlt : ∀ layer, contents.Shares level layer ↔ layer < min level top + 1 := fun layer =>
    ⟨fun ⟨_, hlevel, htop⟩ => by omega, fun hlt => ⟨hsome, by omega, by omega⟩⟩
  refine ⟨graph', next, ?_, hnext, hrelinks.mono fun layer hlayer => (hlt layer).mpr hlayer,
    fun layer hshares => ?_⟩
  · have hheader : graph.header.maxLevel = top := by rw [h.header]; rfl
    rw [FieldGraph.link, h.vector_eq hquery, Except.ok_bind]
    simp only [hheader, hcandidate, hdescend, hlink, Except.ok_bind]
  · exact (hgains layer ((hlt layer).mp hshares)).congr (notMem_members hid)
      (fun a ha => (links_setNode_of_ne ha).1.symm) fun a ha => (links_setNode_of_ne ha).2.symm

/-! ## Insertion -/

/-- **A graph is layered with one more node** if the layers that it shared with the node are sound
with the node on them.

**Proof sketch.** On a layer above those of the graph the new node is the only one; a layer above
those of the node is what it was. -/
theorem layered_of_relinks {linked : GraphContents} {location : SlotRef}
    (hlayered : contents.Layered limit) (hid : contents.node id = none)
    (hrelinks : Relinks {layer | contents.Shares level layer}
      (contents.setNode id (.blank level location)) linked)
    (hsound : ∀ layer, contents.Shares level layer →
      (linked.links layer).Sound limit (Insert.insert id (contents.members layer))) :
    ({ linked with header := countNode contents.header id level } :
      GraphContents).Layered limit := by
  have hmax := maxLevel_countNode contents.header id level
  have hmembers : ∀ layer, linked.members layer = if layer ≤ level then
      Insert.insert id (contents.members layer) else contents.members layer := fun layer =>
    (hrelinks.members layer).trans (members_setNode hid)
  have hnew : id ∈ linked.members level := by
    rw [hmembers, if_pos (Nat.le_refl level)]
    exact Set.mem_insert _ _
  exact {
    shaped := by
      refine hrelinks.shaped fun other node hnode => ?_
      rw [node_setNode] at hnode
      split_ifs at hnode with hother
      · exact Option.some.inj hnode ▸ blank_shaped level location
      · exact hlayered.shaped other node hnode
    level_le := by
      intro other node hnode
      obtain ⟨old, hold, hsame, _⟩ := hrelinks.exists_node hnode
      rw [hsame]
      simp only [hmax]
      rw [node_setNode] at hold
      split_ifs at hold with hother
      · obtain rfl := Option.some.inj hold
        split_ifs
        · exact Nat.le_refl _
        · exact Nat.le_max_right _ _
      · have hle := hlayered.level_le other old hold
        split_ifs with hempty
        · rw [hlayered.blank hempty] at hold
          exact absurd hold (by simp)
        · omega
    blank := by
      intro hnone
      rcases entryPoint_countNode contents.header id level with ⟨hentry, _⟩ | ⟨hentry, _, hsome⟩
      · exact absurd (hentry.symm.trans hnone) (Option.some_ne_none _)
      · exact absurd (hentry.symm.trans hnone) hsome
    entry := by
      intro other hother
      rcases entryPoint_countNode contents.header id level with
        ⟨hentry, htop⟩ | ⟨hentry, htop, _⟩
      · obtain rfl := Option.some.inj (hentry.symm.trans hother)
        exact htop.symm ▸ hnew
      · have hold := hlayered.entry other (hentry.symm.trans hother)
        refine htop.symm ▸ ?_
        change other ∈ linked.members _
        rw [hmembers]
        split_ifs
        · exact .inr hold
        · exact hold
    sound := by
      intro _ layer hlayer
      simp only [hmax] at hlayer
      change (linked.links layer).Sound limit (linked.members layer)
      rw [hmembers]
      by_cases hold : contents.header.entryPoint ≠ none ∧ layer ≤ contents.header.maxLevel
      · obtain ⟨hsome, htop⟩ := hold
        split_ifs with hle
        · exact hsound layer ⟨hsome, hle, htop⟩
        · rw [hrelinks.links layer fun hin => hle hin.2.1]
          exact sound_setNode hid (hlayered.sound hsome layer htop)
      · have hle : layer ≤ level := by
          split_ifs at hlayer with hnone
          · exact hlayer
          · have hgt := Nat.lt_of_not_le fun htop => hold ⟨hnone, htop⟩
            omega
        rw [if_pos hle, hlayered.members_eq_empty hold, insert_empty_eq,
          hrelinks.links layer fun hin => hold ⟨hin.1, hin.2.2⟩]
        refine Links.sound_singleton ?_ ?_
        · rw [links_list node_setNode_self, neighborsAt_blank]
        · rw [links_parent node_setNode_self, parentAt_blank] }

/-- **Inserting a new node succeeds** if its vector lies in its place, and keeps the graph layered.
The layers that the node shares with the graph gain it. Beyond the links of these it changes the new
node and the header only.

**Proof sketch.** The first node of a graph is linked to nothing. Any other one is linked on the
layers that it shares, and the layers above it that are new hold nothing else. -/
theorem exists_insert (h : graph.Shows field base contents) (hlayered : contents.Layered limit)
    (hstored : contents.members 0 ⊆ contents.stored) (hlimit : 2 ≤ limit)
    (hid : contents.node id = none) {location : SlotRef}
    (hplace : id ∈ (contents.setNode id (.blank level location)).stored) (width : Nat) :
    ∃ graph' linked, graph.insert id location level limit width = .ok graph' ∧
      graph'.Shows field base { linked with header := countNode contents.header id level } ∧
      Relinks {layer | contents.Shares level layer} (contents.setNode id (.blank level location))
        linked ∧
      (∀ layer, contents.Shares level layer →
        (contents.links layer).Gains limit (contents.members layer) id (linked.links layer)) ∧
      ({ linked with header := countNode contents.header id level } :
        GraphContents).Layered limit := by
  have hshows := h.addNode id (.blank level location)
  have hcontains : graph.contains id = false := by rw [h.contains_eq, hid, Option.isSome_none]
  have hentry : (graph.addNode id (.blank level location)).header.entryPoint =
      contents.header.entryPoint := by rw [hshows.header]; rfl
  rw [FieldGraph.insert, hcontains]
  simp only [Bool.false_eq_true, if_false, hentry]
  cases hpoint : contents.header.entryPoint with
  | none =>
    have hnot : ∀ layer, ¬ contents.Shares level layer := fun layer hshares => hshares.1 hpoint
    have hrelinks : Relinks {layer | contents.Shares level layer}
        (contents.setNode id (.blank level location)) _ := .refl _ _
    refine ⟨_, contents.setNode id (.blank level location), rfl, ?_, hrelinks,
      fun layer hshares => absurd hshares (hnot layer), ?_⟩
    · rw [hshows.header]
      exact hshows.setHeader _
    · exact layered_of_relinks hlayered hid hrelinks fun layer hshares =>
        absurd hshares (hnot layer)
  | some entryPoint =>
    obtain ⟨graph', linked, hlink, hnext, hrelinks, hgains⟩ := hshows.exists_link hlayered hstored
      (h.finite_members 0) hlimit hid hplace width hpoint
    simp only [hlink, Except.ok_bind, Except.pure_eq_ok]
    refine ⟨_, linked, rfl, ?_, hrelinks, hgains, ?_⟩
    · rw [hnext.header, hrelinks.header]
      exact hnext.setHeader _
    · exact layered_of_relinks hlayered hid hrelinks fun layer hshares =>
        (hgains layer hshares).sound (hlayered.sound hshares.1 layer hshares.2.2)
          (notMem_members hid)

/-! ## Searching -/

/-- The lowest layer serves the nodes of a linked graph. -/
lemma serves_bottom (h : graph.Shows field base contents) (hlinked : contents.Linked limit)
    (hstored : contents.members 0 ⊆ contents.stored)
    (hsome : contents.header.entryPoint ≠ none) (query : Bytes) :
    (graph.layer query 0).Serves (contents.members 0) :=
  h.serves (hlinked.sound hsome 0 (Nat.zero_le _)) hstored

/-- **The descent ends at a node of the lowest layer**, which does not depend on the width of the
beam that starts there.

**Proof sketch.** All members of all layers can be read, so that the descent succeeds layer by
layer; it does not know the width. -/
theorem exists_landing (h : graph.Shows field base contents) (hlinked : contents.Linked limit)
    (hstored : contents.members 0 ⊆ contents.stored)
    (hsome : contents.header.entryPoint ≠ none) (query : Bytes) :
    ∃ best, best.id ∈ contents.members 0 ∧ (graph.layer query 0).Measures best ∧
      ∀ width, graph.search query width = (graph.layer query 0).beamSearch width [best] := by
  obtain ⟨entryPoint, hentry⟩ := Option.ne_none_iff_exists'.mp hsome
  set top := contents.header.maxLevel with htop
  have hstart : entryPoint ∈ contents.members top := hlinked.entry entryPoint hentry
  have hserves : ∀ layer, layer ≤ top →
      (graph.layer query layer).Serves (contents.members layer) := fun layer hlayer =>
    h.serves (hlinked.sound hsome layer hlayer)
      ((members_antitone (Nat.zero_le layer)).trans hstored)
  have hstart' := members_antitone (Nat.zero_le top) hstart
  obtain ⟨entry, hcandidate, rfl, hmeasures⟩ := (hserves 0 (Nat.zero_le top)).candidate hstart'
  obtain ⟨best, hdescend, hbest, hbestmeasures⟩ := @exists_descendLayers _ (graph.layer query)
    contents.members 1 top top entry (fun layer hlayer => hserves layer (by omega))
    (fun _ _ => members_antitone) (fun _ _ _ hm => hm) (by omega) hstart hmeasures
  refine ⟨best, members_antitone (Nat.zero_le _) hbest, hbestmeasures, fun width => ?_⟩
  rw [FieldGraph.search, h.header]
  simp only [hentry, hcandidate, ← htop, hdescend, Except.ok_bind]

/-- **A search succeeds.** It finds candidates of the graph in ascending order, each with its true
distance, and as many as the width of the beam or, if there are fewer nodes, all of them.

**Proof sketch.** The descent ends at a node of the lowest layer, from which every node can be
reached. -/
theorem exists_search (h : graph.Shows field base contents) (hlinked : contents.Linked limit)
    (hstored : contents.members 0 ⊆ contents.stored) (query : Bytes) (width : Nat)
    {ids : List VectorId} (hids : ids.Nodup) (hmem : ∀ id, id ∈ ids ↔ id ∈ contents.members 0) :
    ∃ found, graph.search query width = .ok found ∧ Candidate.Ascending found ∧
      (found.map Candidate.id).Nodup ∧ found.length = min (max width 1) ids.length ∧
      ∀ c ∈ found, c.id ∈ ids ∧ contents.Measures (.ofOptions field.options) query c := by
  by_cases hsome : contents.header.entryPoint = none
  · have hempty : ids = [] := List.eq_nil_iff_forall_not_mem.mpr fun id hin => by
      obtain ⟨node, hnode, _⟩ := (hmem id).mp hin
      rw [hlinked.blank hsome] at hnode
      exact absurd hnode (by simp)
    refine ⟨[], ?_, List.Pairwise.nil, List.nodup_nil, by simp [hempty], by simp⟩
    rw [FieldGraph.search, h.header, hsome]
    rfl
  · obtain ⟨best, hbest, hmeasures, hland⟩ := h.exists_landing hlinked hstored hsome query
    have hserves := h.serves_bottom hlinked hstored hsome query
    obtain ⟨found, hsearch, hfinds⟩ := Layer.exists_beamSearch hserves
      (fun e he => List.mem_singleton.mp he ▸ ⟨hbest, hmeasures⟩) width
    have hmembers : contents.members 0 = {id | id ∈ ids} := Set.ext fun id => (hmem id).symm
    have hlength := hfinds.length_eq (h.finite_members 0) hmeasures
      ⟨best, List.mem_singleton_self best, rfl⟩ fun v hv =>
        h.reflTransGen_edge (hlinked.sound hsome 0 (Nat.zero_le _)) hstored hbest hv
    rw [hmembers, Layer.ncard_of_nodup hids] at hlength
    exact ⟨found, (hland width).trans hsearch, hfinds.ascending, hfinds.ids_nodup, hlength,
      fun c hc => ⟨(hmem c.id).mpr (hfinds.mem c hc),
        h.measures_of (hstored (hfinds.mem c hc)) (hfinds.measured c hc)⟩⟩

/-- **A search with a wider beam finds nothing worse.**

**Proof sketch.** Both searches start from where the descent lands. -/
theorem search_improves (h : graph.Shows field base contents) (hlinked : contents.Linked limit)
    (hstored : contents.members 0 ⊆ contents.stored) {query : Bytes} {narrow wide : Nat}
    (hle : narrow ≤ wide) {found found' : List Candidate}
    (hfound : graph.search query narrow = .ok found)
    (hfound' : graph.search query wide = .ok found') : Candidate.Improves found' found := by
  by_cases hsome : contents.header.entryPoint = none
  · have hnil : ∀ width, graph.search query width = .ok [] := by
      intro width
      rw [FieldGraph.search, h.header, hsome]
      rfl
    obtain rfl := Except.ok.inj (hfound.symm.trans (hnil narrow))
    obtain rfl := Except.ok.inj (hfound'.symm.trans (hnil wide))
    exact .refl []
  · obtain ⟨best, hbest, hmeasures, hland⟩ := h.exists_landing hlinked hstored hsome query
    rw [hland] at hfound hfound'
    exact Layer.beamSearch_improves (h.serves_bottom hlinked hstored hsome query)
      (fun e he => List.mem_singleton.mp he ▸ ⟨hbest, hmeasures⟩) hle hfound hfound'

end FieldGraph.Shows

end Proximity

import Proximity.Proofs.Graph.Rewiring

set_option relaxedAutoImplicit false
set_option autoImplicit false

/-!
# How walking and linking can fail

Walks over a layer and the linking of a node fail only where a look-up fails, apart from two reports
of their own: a layer on which no node has room, and a vector that is registered already. So if the
look-ups of a graph fail for reasons of one kind only, whatever its records are, then so do
searching it and inserting into it. Linking changes no look-up of a stored vector.

## Main definitions

* `Proximity.Layer.FailsBy` — a layer whose look-ups fail for reasons of one kind.
* `Proximity.FieldGraph.stored` — what lies in a slot.
* `Proximity.FieldGraph.FailsBy` — a graph whose look-ups fail for reasons of one kind.

## Main results

* `Proximity.Layer.FailsBy.ends_beamSearch`, `Proximity.Layer.FailsBy.ends_firstWithRoom` — walks.
* `Proximity.FieldGraph.FailsBy.ends_search` — searching.
* `Proximity.FieldGraph.FailsBy.ends_link` — linking a node.
* `Proximity.FieldGraph.FailsBy.ends_insert` — inserting a node.
-/

namespace Proximity

/-! ## Walks -/

namespace Layer

variable {ε : Type}

/-- **The look-ups of a layer fail for reasons of one kind** if they fail. -/
structure FailsBy (P : ε → Prop) (layer : Layer ε) : Prop where
  neighbors : ∀ id, (layer.neighbors id).Ends P fun _ => True
  distance : ∀ id, (layer.distance id).Ends P fun _ => True

namespace FailsBy

variable {P : ε → Prop} {layer : Layer ε}

/-- Measuring a vector fails as the look-ups do. -/
lemma ends_candidate (h : layer.FailsBy P) (id : VectorId) :
    (layer.candidate id).Ends P fun _ => True :=
  (h.distance id).bind fun _ _ => .ok trivial

/-- A step of a descent fails as the look-ups do. -/
lemma ends_improve (h : layer.FailsBy P) (start : Candidate) :
    (layer.improve start).Ends P fun _ => True := by
  refine (h.neighbors start.id).bind fun list _ =>
    Except.Ends.foldlM (fun id _ best _ => ?_) trivial
  exact (h.ends_candidate id).bind fun _ _ => .ok trivial

/-- A descent on one layer fails as the look-ups do. -/
lemma ends_descend (h : layer.FailsBy P) (start : Candidate) :
    (layer.descend start).Ends P fun _ => True := by
  fun_induction layer.descend start with
  | case1 start e he => exact .error (he ▸ h.ends_improve start).of_error
  | case2 start best _ _ ih => exact ih
  | case3 start best _ _ => exact .ok trivial

/-- A beam search fails as the look-ups do, from wherever it goes on. -/
lemma ends_explore (h : layer.FailsBy P) (width : Nat) (beam : Beam) :
    (layer.explore width beam).Ends P fun _ => True := by
  fun_induction layer.explore width beam with
  | case1 beam _ => exact .ok trivial
  | case2 beam nearest frontier _ _ => exact .ok trivial
  | case3 beam nearest frontier _ _ e he =>
    have hexpand : (layer.expand width { beam with frontier } nearest).Ends P fun _ => True := by
      refine (h.neighbors nearest.id).bind fun list _ =>
        Except.Ends.foldlM (fun id _ beam _ => ?_) trivial
      unfold visit
      split
      · exact .ok trivial
      · exact (h.ends_candidate id).bind fun _ _ => .ok trivial
    exact .error (he ▸ hexpand).of_error
  | case4 beam nearest frontier _ _ next _ ih => exact ih

/-- **A beam search** fails only where a look-up does. -/
theorem ends_beamSearch (h : layer.FailsBy P) (width : Nat) (entries : List Candidate) :
    (layer.beamSearch width entries).Ends P fun _ => True :=
  h.ends_explore _ _

/-- **The search for a parent** fails only where a look-up or a test does, or if no node has
room. -/
theorem ends_firstWithRoom (h : layer.FailsBy P)
    {hasRoom : VectorId → List VectorId → Except ε Bool}
    (hroom : ∀ id list, (hasRoom id list).Ends P fun _ => True) {saturated : ε}
    (hsaturated : P saturated) (seen : IdSet) (queue : List VectorId) :
    (layer.firstWithRoom hasRoom saturated seen queue).Ends P fun _ => True := by
  fun_induction layer.firstWithRoom hasRoom saturated seen queue with
  | case1 => exact .error hsaturated
  | case2 seen id queue _ ih => exact ih
  | case3 seen id queue _ e he => exact .error (he ▸ h.neighbors id).of_error
  | case4 seen id queue _ list _ e he => exact .error (he ▸ hroom id list).of_error
  | case5 seen id queue _ list _ _ => exact .ok trivial
  | case6 seen id queue _ list _ _ ih => exact ih

end FailsBy

end Layer

/-- A descent through layers fails only where a look-up on one of them does. -/
lemma ends_descendLayers {ε : Type} {P : ε → Prop} {layer : Nat → Layer ε}
    (h : ∀ number, (layer number).FailsBy P) (bottom count : Nat) (start : Candidate) :
    (descendLayers layer bottom count start).Ends P fun _ => True := by
  induction count generalizing start with
  | zero => exact .ok trivial
  | succ count ih => exact ((h _).ends_descend start).bind fun best _ => ih best

/-! ## The selection of neighbors -/

namespace Selection

variable {ε : Type} {P : ε → Prop} {between : VectorId → VectorId → Except ε Single}

/-- The test for diversity fails as measuring does. -/
lemma ends_isDiverse (h : ∀ a b, (between a b).Ends P fun _ => True) (candidate : Candidate)
    (kept : List VectorId) : (isDiverse between candidate kept).Ends P fun _ => True := by
  induction kept with
  | nil => exact .ok trivial
  | cons other kept ih =>
    refine (h candidate.id other).bind fun distance _ => ?_
    split
    · exact .ok trivial
    · exact ih

/-- A sweep fails as measuring does. -/
lemma ends_sweep (h : ∀ a b, (between a b).Ends P fun _ => True) (limit : Nat)
    (pinned kept skipped : List VectorId) (candidates : List Candidate) :
    (sweep between limit pinned kept skipped candidates).Ends P fun _ => True := by
  induction candidates generalizing kept skipped with
  | nil => exact .ok trivial
  | cons candidate candidates ih =>
    rw [sweep]
    split
    · exact .ok trivial
    split
    · exact ih _ _
    · refine (ends_isDiverse h candidate kept).bind fun diverse _ => ?_
      split
      · exact ih _ _
      · exact ih _ _

/-- **A selection** fails only where a distance does. -/
theorem ends_select (h : ∀ a b, (between a b).Ends P fun _ => True) (limit : Nat)
    (pinned : List VectorId) (candidates : List Candidate) :
    (select between limit pinned candidates).Ends P fun _ => True :=
  (ends_sweep h limit pinned _ [] candidates).bind fun _ _ => .ok trivial

end Selection

/-! ## Look-ups of a graph -/

namespace FieldGraph

/-- What lies in a slot of a container of the field. -/
def stored (graph : FieldGraph) (place : SlotRef) : Except IndexError Bytes := do
  let layout ← graph.layout
  let container ← graph.container place.container
  container.vector layout place

/-- **The look-ups of a graph fail for reasons of one kind** if they fail. -/
structure FailsBy (P : IndexError → Prop) (graph : FieldGraph) : Prop where
  node : ∀ id, (graph.node id).Ends P fun _ => True
  stored : ∀ place, (graph.stored place).Ends P fun _ => True

namespace FailsBy

variable {P : IndexError → Prop} {graph : FieldGraph}

/-- A look-up of a vector fails as the look-ups do. -/
lemma ends_vector (h : graph.FailsBy P) (id : VectorId) :
    (graph.vector id).Ends P fun _ => True :=
  (h.node id).bind fun node _ => h.stored node.location

/-- A look-up of neighbors fails as the look-ups do. -/
lemma ends_neighbors (h : graph.FailsBy P) (layer : Nat) (id : VectorId) :
    (graph.neighbors layer id).Ends P fun _ => True :=
  (h.node id).bind fun _ _ => .ok trivial

/-- A look-up of a parent fails as the look-ups do. -/
lemma ends_parent (h : graph.FailsBy P) (layer : Nat) (id : VectorId) :
    (graph.parent layer id).Ends P fun _ => True :=
  (h.node id).bind fun _ _ => .ok trivial

/-- Measuring the distance to a query fails as the look-ups do. -/
lemma ends_distanceTo (h : graph.FailsBy P) (query : Bytes) (id : VectorId) :
    (graph.distanceTo query id).Ends P fun _ => True :=
  (h.ends_vector id).bind fun _ _ => .ok trivial

/-- Measuring the distance of two vectors fails as the look-ups do. -/
lemma ends_between (h : graph.FailsBy P) (a b : VectorId) :
    (graph.between a b).Ends P fun _ => True :=
  (h.ends_vector a).bind fun bytes _ => h.ends_distanceTo bytes b

/-- Finding the edges of the tree fails as the look-ups do. -/
lemma ends_treeEdges (h : graph.FailsBy P) (layer : Nat) (id : VectorId)
    (list : List VectorId) : (graph.treeEdges layer id list).Ends P fun _ => True := by
  refine (h.ends_parent layer id).bind fun own _ => Except.Ends.filterM fun other _ => ?_
  split
  · exact .ok trivial
  · exact (h.ends_parent layer other).bind fun _ _ => .ok trivial

/-- A layer fails as its graph does. -/
lemma failsBy_layer (h : graph.FailsBy P) (query : Bytes) (layer : Nat) :
    (graph.layer query layer).FailsBy P where
  neighbors := h.ends_neighbors layer
  distance := h.ends_distanceTo query

/-- **A search** fails only where a look-up does. -/
theorem ends_search (h : graph.FailsBy P) (query : Bytes) (width : Nat) :
    (graph.search query width).Ends P fun _ => True := by
  unfold FieldGraph.search
  split
  · exact .ok trivial
  · next entryPoint _ =>
    refine ((h.failsBy_layer query 0).ends_candidate entryPoint).bind fun entry _ => ?_
    refine (ends_descendLayers (h.failsBy_layer query) 1 _ entry).bind fun entry _ => ?_
    exact (h.failsBy_layer query 0).ends_beamSearch width [entry]

/-! ## Changes -/

/-- Another node in the place of one leaves the look-ups as they are. -/
lemma addNode (h : graph.FailsBy P) (id : VectorId) (node : NodeRecord) :
    (graph.addNode id node).FailsBy P where
  node other := by
    rw [node_addNode]
    split
    · exact .ok trivial
    · exact h.node other
  stored := h.stored

/-- A new list of neighbors brings no failures of other kinds. -/
lemma setNeighbors (h : graph.FailsBy P) (layer : Nat) (id : VectorId) (list : List VectorId) :
    (graph.setNeighbors layer id list).FailsBy P := by
  rw [FieldGraph.setNeighbors]
  cases hnode : graph.node id with
  | error e => exact h
  | ok node =>
    simp only
    split
    · rw [modifyNode_eq hnode]
      exact h.addNode id _
    · exact h

/-- A new parent brings no failures of other kinds. -/
lemma setParent (h : graph.FailsBy P) (layer : Nat) (id parent : VectorId) :
    (graph.setParent layer id parent).FailsBy P := by
  rw [FieldGraph.setParent]
  cases hnode : graph.node id with
  | error e => exact h
  | ok node =>
    simp only
    split
    · rw [modifyNode_eq hnode]
      exact h.addNode id _
    · exact h

/-! ## Linking -/

/-- Connecting two nodes fails as the look-ups do, and the graph it leaves does too. -/
lemma ends_connect (h : graph.FailsBy P) (layer limit : Nat) (id other : VectorId) :
    (graph.connect layer limit id other).Ends P (FailsBy P) := by
  refine (h.ends_neighbors layer id).bind fun list _ => ?_
  split
  · exact .ok h
  · dsimp only
    split
    · have hprune : (graph.prune layer limit id (list ++ [other])).Ends P fun _ => True := by
        refine (Except.Ends.mapM (R := fun _ => True) fun other _ =>
          (h.ends_between id other).bind fun _ _ => .ok trivial).bind fun scored _ => ?_
        refine (h.ends_treeEdges layer id _).bind fun pinned _ => ?_
        exact Selection.ends_select h.ends_between limit pinned _
      exact hprune.bind fun kept _ => .ok (h.setNeighbors layer id kept)
    · exact .ok (h.setNeighbors layer id _)

variable (hsaturated : ∀ layer, P (.inconsistent (.saturatedLayer layer)))

include hsaturated in
/-- **Linking a node on one layer** fails only where a look-up does, or if no node has room.

**Proof sketch.** The beam search, the search for a parent, the selection and the connections one
after the other. Each is made of look-ups, and setting links adds no failures. -/
theorem ends_linkLayer (h : graph.FailsBy P) (id : VectorId) (query : Bytes)
    (limit width layer : Nat) (entries : List Candidate) :
    (graph.linkLayer id query limit width layer entries).Ends P fun linked =>
      linked.1.FailsBy P := by
  refine ((h.failsBy_layer query layer).ends_beamSearch _ entries).bind fun found _ => ?_
  have hroom : ∀ id list, (graph.hasRoom layer limit id list).Ends P fun _ => True :=
    fun id list => (h.ends_treeEdges layer id list).bind fun _ _ => .ok trivial
  refine ((h.failsBy_layer query layer).ends_firstWithRoom hroom (hsaturated layer) _ _).bind
    fun parent _ => ?_
  have hparent := h.setParent layer id parent
  have hwith : ((graph.setParent layer id parent).withParent query found parent).Ends P
      fun _ => True := by
    unfold FieldGraph.withParent
    split
    · exact .ok trivial
    · exact (hparent.ends_distanceTo query parent).bind fun _ _ => .ok trivial
  refine hwith.bind fun candidates _ => ?_
  refine (Selection.ends_select hparent.ends_between limit [parent] candidates).bind
    fun selected _ => ?_
  have hothers := Except.Ends.foldlM (ε := IndexError) (Q := FailsBy P)
    (l := selected.filter fun other => other ≠ parent)
    (fun other _ graph hgraph => ends_connect hgraph layer limit other id)
    (hparent.setNeighbors layer id selected)
  refine hothers.bind fun graph hgraph => ?_
  exact (ends_connect hgraph layer limit parent id).bind fun graph hgraph => .ok hgraph

include hsaturated in
/-- Linking a node layer by layer fails as the look-ups do, and the graph it leaves does too. -/
lemma ends_linkLayers (h : graph.FailsBy P) (id : VectorId) (query : Bytes)
    (limit width count : Nat) (entries : List Candidate) :
    (graph.linkLayers id query limit width count entries).Ends P (FailsBy P) := by
  induction count generalizing graph entries with
  | zero => exact .ok h
  | succ layer ih =>
    refine (ends_linkLayer hsaturated h id query limit width layer entries).bind ?_
    rintro ⟨next, found⟩ hnext
    exact ih hnext found

include hsaturated in
/-- **Linking a node** fails only where a look-up does, or if no node of a layer has room. -/
theorem ends_link (h : graph.FailsBy P) (id : VectorId) (level limit width : Nat)
    (entryPoint : VectorId) :
    (graph.link id level limit width entryPoint).Ends P (FailsBy P) := by
  refine (h.ends_vector id).bind fun query _ => ?_
  refine ((h.failsBy_layer query _).ends_candidate entryPoint).bind fun start _ => ?_
  refine (ends_descendLayers (h.failsBy_layer query) _ _ start).bind fun entry _ => ?_
  exact ends_linkLayers hsaturated h id query limit width _ [entry]

include hsaturated in
/-- **Inserting a node** fails only where a look-up does, if no node of a layer has room, or if the
vector is registered already. Look-ups of nodes fail for no other reasons afterwards.

**Proof sketch.** The check of the name comes first. A new node can be read, so that the look-ups of
the graph with it fail as before. -/
theorem ends_insert (h : graph.FailsBy P) {id : VectorId} (hduplicate : P (.duplicate id.raw))
    (location : SlotRef) (level limit width : Nat) :
    (graph.insert id location level limit width).Ends P fun next =>
      ∀ other, (next.node other).Ends P fun _ => True := by
  unfold FieldGraph.insert
  split
  · exact .error hduplicate
  have hadd := h.addNode id (.blank level location)
  dsimp only
  split
  · exact .ok hadd.node
  · exact (ends_link hsaturated hadd id level limit width _).bind fun _ hlinked => .ok hlinked.node

end FailsBy

end FieldGraph

end Proximity

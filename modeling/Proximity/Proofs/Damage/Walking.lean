import Proximity.Proofs.Damage.Registering
import Proximity.Proofs.Graph.Termination

set_option relaxedAutoImplicit false
set_option autoImplicit false

/-!
# Walking over damaged graphs

Every walk over a graph comes to its end, whatever its nodes list and its vectors are: there is a
bound on its rounds that depends on nothing but the number of nodes, the lengths of their lists and
where the walk starts. It ends with an answer or an error, and the errors are those of the look-ups.
So a walk leaves the run of a container in one case only, in which the container is cut short, and
all other damage is reported.

## Main definitions

* `Proximity.FieldGraph.FailsWalking` — an error of one of the walks.

## Main results

* `Proximity.FieldGraph.ends_walks` — the walks and their errors.
* `Proximity.FieldGraph.not_forall_walks_report` — a walk can leave a run.
-/

namespace Proximity

open MessagePack

namespace FieldGraph

/-- **An error of a walk** over a graph: of a descent, a beam search or the search for a parent. -/
inductive FailsWalking (graph : FieldGraph) (query : Bytes) (e : IndexError) : Prop
  /-- A descent fails. -/
  | descent {bottom count : Nat} {start : Candidate}
    (h : descendLayers (graph.layer query) bottom count start = .error e)
  /-- A beam search fails. -/
  | beam {layer width : Nat} {entries : List Candidate}
    (h : (graph.layer query layer).beamSearch width entries = .error e)
  /-- The search for a parent fails. -/
  | parent {layer limit : Nat} {candidates : List Candidate}
    (h : graph.findParent query layer limit candidates = .error e)

/-- **A walk fails only where a look-up does**, or if no node of a layer has room.

**Proof sketch.** Each walk passes on how its look-ups end. -/
theorem FailsBy.of_failsWalking {graph : FieldGraph} {P : IndexError → Prop} (h : graph.FailsBy P)
    (hsaturated : ∀ layer, P (.inconsistent (.saturatedLayer layer))) {query : Bytes}
    {e : IndexError} (hwalk : graph.FailsWalking query e) : P e := by
  cases hwalk with
  | descent hwalk =>
    exact (hwalk ▸ ends_descendLayers (h.failsBy_layer query) _ _ _).of_error
  | beam hwalk =>
    exact (hwalk ▸ (h.failsBy_layer query _).ends_beamSearch _ _).of_error
  | @parent layer limit candidates hwalk =>
    have hroom : ∀ id list, (graph.hasRoom layer limit id list).Ends P fun _ => True :=
      fun id list => (h.ends_treeEdges layer id list).bind fun _ _ => .ok trivial
    have hends := (h.failsBy_layer query layer).ends_firstWithRoom hroom (hsaturated layer) ∅
      (candidates.map Candidate.id)
    rw [← findParent, hwalk] at hends
    exact hends.of_error

/-- **The walks over a graph end**, whatever its records are: a descent after one round for each
node on each layer and one more on each, a beam search after one for each node and each entry, and
the search for a parent after one for each neighbor that is listed and each candidate. A descent
ends with a candidate that is not behind its start and that no neighbor on the last layer is before.
All walks fail only as look-ups fail, apart from a layer without room; and in a graph that has been
opened they leave the run of a container only if it is cut short.

**Proof sketch.** Each walk comes nearer to its end in every round, so that it ends after as many
rounds as it has to go at first. -/
theorem ends_walks (graph : FieldGraph) (query : Bytes) :
    (∀ bottom count start, Round.EndsWithin (descentRound (graph.layer query) bottom)
      (count * (graph.nodes.size + 1) + 1) (count, start)
      (descendLayers (graph.layer query) bottom count start)) ∧
    (∀ layer width entries, Round.EndsWithin ((graph.layer query layer).beamRound (max width 1))
      (graph.nodes.size + entries.length + 1) (Beam.start (max width 1) entries)
      ((graph.layer query layer).beamSearch width entries)) ∧
    (∀ layer limit candidates, Round.EndsWithin
      ((graph.layer query layer).parentRound (graph.hasRoom layer limit)
        (.inconsistent (.saturatedLayer layer)))
      ((graph.layer query layer).degrees graph.nodes.keys + candidates.length + 1)
      (∅, candidates.map Candidate.id) (graph.findParent query layer limit candidates)) ∧
    (∀ bottom count start best, descendLayers (graph.layer query) bottom count start = .ok best →
      best.notAfter start = true ∧ (0 < count → ∃ list, graph.neighbors bottom best.id = .ok list ∧
        ∀ id ∈ list, ∃ distance, graph.distanceTo query id = .ok distance ∧
          best.notAfter { distance, id } = true)) ∧
    (∀ P : IndexError → Prop, graph.FailsBy P →
      (∀ layer, P (.inconsistent (.saturatedLayer layer))) →
      ∀ e, graph.FailsWalking query e → P e) ∧
    ∀ view name codec, load view name codec = .ok graph →
      ∀ e, graph.FailsWalking query e → view.Blames name e := by
  refine ⟨fun bottom count start => ?_, fun layer width entries => ?_,
    fun layer limit candidates => ?_, fun _ _ _ _ => isLeast_descendLayers,
    fun P h hsaturated e => h.of_failsWalking hsaturated, fun view name codec hload e => ?_⟩
  · have hnodes : ∀ layer, (graph.layer query layer).nodes.length ≤ graph.nodes.size :=
      fun _ => Nat.le_of_eq Std.TreeMap.length_keys
    exact endsWithin_descendLayers hnodes bottom count start
  · have hends := (graph.layer query layer).endsWithin_beamSearch width entries
    rwa [show (graph.layer query layer).nodes.length = graph.nodes.size from
      Std.TreeMap.length_keys] at hends
  · have hends := (graph.layer query layer).endsWithin_firstWithRoom (graph.hasRoom layer limit)
      (.inconsistent (.saturatedLayer layer)) (candidates.map Candidate.id)
    rwa [List.length_map] at hends
  · exact (failsBy_of_load hload).of_failsWalking fun layer => .inl rfl

end FieldGraph

/-! ## A walk that leaves a run -/

/-- The header of a graph with two vectors of the length of a page. -/
def filling : GraphHeader :=
  { GraphHeader.blank with
    entryPoint := some ⟨1⟩, maxLevel := 1, nodeCount := 2, vectorLength := pageSize }

/-- A node in the first slot of a container that lists another vector on its higher layer. -/
def pointing : NodeRecord :=
  { NodeRecord.blank 1 ⟨⟨0⟩, 0⟩ with neighbors := [[], [⟨2⟩]] }

/-- A node in the second slot. -/
def pointed : NodeRecord :=
  .blank 1 ⟨⟨0⟩, 1⟩

/-- The descent from the first of the two vectors looks at the second one, which lies outside a run
of one page.

**Proof sketch.** The first vector lists the second one, whose slot begins where the run ends. -/
lemma descendLayers_pointing {graph : FieldGraph} (hheader : graph.header = filling)
    (hfirst : graph.node ⟨1⟩ = .ok pointing) (hsecond : graph.node ⟨2⟩ = .ok pointed)
    (hcontainer : graph.container ⟨0⟩ = .ok ⟨[⟨1⟩, ⟨2⟩], Run.blank 1⟩) (query : Bytes)
    (distance : Single) : descendLayers (graph.layer query) 1 1 ⟨distance, ⟨1⟩⟩ =
      .error (.slotOutsideRun ⟨0⟩ 1) := by
  have hslice : (Run.blank 1).slice? (1 * pageSize) pageSize = none := by
    rw [Run.slice?, show (Run.blank 1).size = 1 * pageSize from Array.size_replicate]
    exact if_neg (by decide)
  have hvector : graph.vector ⟨2⟩ = .error (.slotOutsideRun ⟨0⟩ 1) := by
    obtain ⟨layout, hlayout⟩ := ContainerLayout.exists_of_pos (show 0 < pageSize by decide)
    have hlength := ContainerLayout.vectorLength_of_forVectorLength? hlayout
    have hoffset : layout.slotOffset 1 = 1 * pageSize := by
      rw [ContainerLayout.slotOffset, hlength]
      rfl
    rw [FieldGraph.vector, hsecond, Except.ok_bind, FieldGraph.layout, hheader]
    simp only [filling, hlayout, Except.ok_bind, pointed, NodeRecord.blank, hcontainer,
      Container.vector, Container.used, hlength, hoffset, hslice]
    rfl
  have himprove : (graph.layer query 1).improve ⟨distance, ⟨1⟩⟩ =
      .error (.slotOutsideRun ⟨0⟩ 1) := by
    have hlist : (graph.layer query 1).neighbors ⟨1⟩ = .ok [⟨2⟩] := by
      change graph.neighbors 1 ⟨1⟩ = _
      rw [FieldGraph.neighbors, hfirst]
      rfl
    have hdistance : (graph.layer query 1).distance ⟨2⟩ = .error (.slotOutsideRun ⟨0⟩ 1) := by
      change graph.distanceTo query ⟨2⟩ = _
      rw [FieldGraph.distanceTo, hvector]
      rfl
    rw [Layer.improve, hlist, Except.ok_bind, List.foldlM_cons, Layer.better, Layer.candidate,
      hdistance]
    rfl
  rw [descendLayers, Layer.descend_of_improve_eq_error himprove]
  rfl

/-- **Records can be damaged so that a descent leaves a run**: both vectors fill a page, and the run
of their container has one page only.

**Proof sketch.** The nodes are put beside the records of a field with one container, which lists
both vectors. -/
theorem exists_descent_overrun : ∃ view graph,
    FieldGraph.load view "f" (.ofOptions (.ofShape 2 1)) = .ok graph ∧
      GraphHeader.find view "f" = .ok filling ∧
      ∀ query distance, descendLayers (graph.layer query) 1 1 ⟨distance, ⟨1⟩⟩ =
        .error (.slotOutsideRun ⟨0⟩ 1) := by
  obtain ⟨txn, _, hheader, hreads, _⟩ :=
    @exists_listing ⟨"f", .ofShape 2 1, 0⟩ filling ⟨[⟨1⟩, ⟨2⟩]⟩ (by decide)
      ⟨by decide, ⟨by decide, by decide, by decide⟩, by decide⟩
      ⟨by decide, by decide, by decide, by decide⟩ (by decide : 2 < 2 ^ 32)
  set damaged := (txn.put (RecordKey.node "f" ⟨1⟩).bytes (encode pointing)).put
    (RecordKey.node "f" ⟨2⟩).bytes (encode pointed) with hdamaged
  have hget : ∀ key, damaged.view.get? key =
      if (RecordKey.node "f" ⟨2⟩).bytes = key then some (encode pointed) else
      if (RecordKey.node "f" ⟨1⟩).bytes = key then some (encode pointing) else
        txn.view.get? key := by
    intro key
    rw [hdamaged, WriteTransaction.get?_view_put, WriteTransaction.get?_view_put]
  have hrun : damaged.view.run ⟨0⟩ = txn.view.run ⟨0⟩ := by
    rw [hdamaged, WriteTransaction.run_view_put, WriteTransaction.run_view_put]
  have hne := @RecordKey.bytes_ne_of_ne "f" (by decide)
  have hfind : GraphHeader.find damaged.view "f" = .ok filling := by
    rw [← hheader, GraphHeader.find, GraphHeader.find, hget, if_neg (hne rfl rfl (by simp)),
      if_neg (hne rfl rfl (by simp))]
  refine ⟨damaged.view, _, by rw [FieldGraph.load, hfind]; rfl, hfind, fun query distance => ?_⟩
  set graph : FieldGraph := {
    field := "f", codec := .ofOptions (.ofShape 2 1), header := filling
    nodes := FieldGraph.loadNodes damaged.view "f"
    containers := FieldGraph.loadContainers damaged.view "f"
    changedNodes := ∅
    changedContainers := ∅ } with hgraph
  have hfirst : graph.node ⟨1⟩ = .ok pointing := by
    rw [FieldGraph.node, FieldGraph.getElem?_loadNodes, hget, if_neg (hne rfl rfl (by simp)),
      if_pos rfl]
    exact NodeRecord.decode_encode ⟨by decide, by decide, by decide, by decide⟩
  have hsecond : graph.node ⟨2⟩ = .ok pointed := by
    rw [FieldGraph.node, FieldGraph.getElem?_loadNodes, hget, if_pos rfl]
    exact NodeRecord.decode_encode ⟨by decide, by decide, by decide, by decide⟩
  have hcontainer : graph.container ⟨0⟩ = .ok ⟨[⟨1⟩, ⟨2⟩], Run.blank 1⟩ := by
    have hstored : Container.ofStored damaged.view ⟨0⟩ = Container.ofStored txn.view ⟨0⟩ := by
      funext stored
      rw [Container.ofStored, Container.ofStored, hrun]
    rw [FieldGraph.container, FieldGraph.getElem?_loadContainers, hget,
      if_neg (hne rfl rfl (by simp)), if_neg (hne rfl rfl (by simp)), hstored]
    rw [hreads]
  exact descendLayers_pointing rfl hfirst hsecond hcontainer query distance

/-- **Not every damage is reported by the walks**: a descent can leave a run. -/
theorem FieldGraph.not_forall_walks_report : ¬∀ (view : Snapshot) (name : String) (codec : Codec)
    (graph : FieldGraph) (query : Bytes) (bottom count : Nat) (start : Candidate) (e : IndexError),
    load view name codec = .ok graph →
      descendLayers (graph.layer query) bottom count start = .error e → e.Reports := by
  intro hall
  obtain ⟨view, graph, hload, _, hdescent⟩ := exists_descent_overrun
  cases hall view "f" _ graph [] 1 1 _ _ hload (hdescent [] .zero)

/-- A descent that leaves a run blames the container that is cut short. -/
theorem FieldGraph.exists_walks_cutShort : ∃ view graph,
    load view "f" (.ofOptions (.ofShape 2 1)) = .ok graph ∧
      descendLayers (graph.layer []) 1 1 ⟨.zero, ⟨1⟩⟩ = .error (.slotOutsideRun ⟨0⟩ 1) ∧
      Round.EndsWithin (descentRound (graph.layer []) 1) (graph.nodes.size + 2)
        (1, ⟨.zero, ⟨1⟩⟩) (.error (.slotOutsideRun ⟨0⟩ 1)) ∧
      view.CutShort "f" pageSize 0 ⟨0⟩ 1 := by
  obtain ⟨view, graph, hload, hheader, hdescent⟩ := exists_descent_overrun
  obtain ⟨hends, _, _, _, _, hblames⟩ := graph.ends_walks []
  have hend := hends 1 1 ⟨.zero, ⟨1⟩⟩
  rw [hdescent, Nat.one_mul] at hend
  rcases hblames view "f" _ hload _ (.descent (hdescent [] .zero)) with
    hreports | ⟨page, slot, header, hover, hfound, hcut⟩
  · cases hreports
  · obtain ⟨rfl, rfl⟩ := IndexError.slotOutsideRun.inj hover
    obtain rfl := Except.ok.inj (hheader.symm.trans hfound)
    exact ⟨view, graph, hload, hdescent [] .zero, hend, hcut⟩

end Proximity

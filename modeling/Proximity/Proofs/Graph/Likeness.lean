import Proximity.Proofs.Graph.Lockstep
import Proximity.Proofs.Graph.Rewiring
import Proximity.Proofs.Graph.Storage

set_option relaxedAutoImplicit false
set_option autoImplicit false

/-!
# Graphs that go on alike

What an opened graph goes on to do depends on what can be looked up in it, and not on what it was
opened from or what has changed since. So two graphs with the same look-ups take in a vector alike,
and they leave the same records when they are written, if they would have done so before.

## Main definitions

* `Proximity.FieldGraph.writtenNode`, `Proximity.FieldGraph.writtenContainer` — what a graph leaves
  under the key of a record when it is written.
* `Proximity.FieldGraph.Alike` — two graphs with the same look-ups, which leave the same records.

## Main results

* `Proximity.FieldGraph.Shows.get?_of_flush` — writing a graph leaves these records.
* `Proximity.FieldGraph.Alike.addNode`, `Proximity.FieldGraph.Alike.setContainer` — the same change.
* `Proximity.FieldGraph.Alike.lockstep` — alike graphs go on in step.
* `Proximity.FieldGraph.Alike.insert` — taking in a node.
-/

namespace Proximity.FieldGraph

open MessagePack

/-! ## What is written -/

/-- What stands under the key of a node once a graph has been written over what was there before. -/
def writtenNode (graph : FieldGraph) (before : Bytes → Option Bytes) (id : VectorId) :
    Option Bytes :=
  if id ∈ graph.changedNodes then (graph.node id).toOption.map encode
  else before (RecordKey.node graph.field id).bytes

/-- What stands under the key of a container once a graph has been written over what was there
before. -/
def writtenContainer (graph : FieldGraph) (before : Bytes → Option Bytes) (page : PageId) :
    Option Bytes :=
  if page ∈ graph.changedContainers then
    (graph.container page).toOption.map fun container => encode container.record
  else before (RecordKey.container graph.field page).bytes

/-- **Writing a graph leaves what it is said to leave** under the keys of nodes and containers.

**Proof sketch.** A node or container that has been changed is written under its own key and no
other, and one that has not been changed is left. -/
theorem Shows.get?_of_flush {graph : FieldGraph} {field : FieldRecord}
    {base contents : GraphContents} {txn txn' : WriteTransaction}
    (h : graph.Shows field base contents) (hplain : '/' ∉ field.name.toList)
    (hbacked : ∀ page container, contents.container page = some container →
      ∃ run, txn.view.run page = .ok run ∧ run.size = container.run.size)
    (hflush : graph.flush txn = .ok txn') :
    (∀ id, txn'.view.get? (RecordKey.node field.name id).bytes =
      graph.writtenNode txn.view.get? id) ∧
    ∀ page, txn'.view.get? (RecordKey.container field.name page).bytes =
      graph.writtenContainer txn.view.get? page := by
  obtain ⟨txn₁, txn₂, hcontainers, hnodes, hwrites⟩ := h.exists_writes hbacked
  have hlast := Except.ok.inj (hwrites.symm.trans hflush)
  have hne := @RecordKey.bytes_ne_of_ne field.name hplain
  constructor
  · intro id
    rw [← hlast, WriteTransaction.get?_view_put, if_neg (hne rfl rfl (by simp)),
      FieldGraph.writtenNode, h.name]
    split_ifs with hchanged
    · obtain ⟨node, hnode⟩ := Option.isSome_iff_exists.mp (h.node_changed id hchanged)
      rw [hnodes.get? id (Std.TreeSet.mem_toList.mpr hchanged) node hnode, h.node_eq hnode]
      rfl
    · rw [hnodes.get?_of_notMem fun hin => hchanged (Std.TreeSet.mem_toList.mp hin),
        hcontainers.get?_of_ne _ fun _ _ => hne rfl rfl (by simp)]
  · intro page
    rw [← hlast, WriteTransaction.get?_view_put, if_neg (hne rfl rfl (by simp)),
      hnodes.get?_of_ne _ fun _ _ => hne rfl rfl (by simp), FieldGraph.writtenContainer, h.name]
    split_ifs with hchanged
    · obtain ⟨container, hcontainer⟩ :=
        Option.isSome_iff_exists.mp (h.container_changed page hchanged)
      rw [hcontainers.get? page (Std.TreeSet.mem_toList.mpr hchanged) container hcontainer,
        h.container_eq hcontainer]
      rfl
    · rw [hcontainers.get?_of_notMem fun hin => hchanged (Std.TreeSet.mem_toList.mp hin)]

/-! ## Two graphs -/

/-- **Two graphs are alike**: they are of one field, every look-up answers the same in both, and
they leave the same records when they are written, each over what was there before. -/
structure Alike (before before' : Bytes → Option Bytes) (graph graph' : FieldGraph) : Prop where
  field : graph'.field = graph.field
  codec : graph'.codec = graph.codec
  header : graph'.header = graph.header
  nodes : ∀ id : VectorId, graph'.nodes[id]? = graph.nodes[id]?
  containers : ∀ page : PageId, graph'.containers[page]? = graph.containers[page]?
  writtenNode : ∀ id, graph'.writtenNode before' id = graph.writtenNode before id
  writtenContainer : ∀ page,
    graph'.writtenContainer before' page = graph.writtenContainer before page

namespace Alike

variable {before before' : Bytes → Option Bytes} {graph graph' : FieldGraph}

/-- A graph is like itself. -/
lemma refl (before : Bytes → Option Bytes) (graph : FieldGraph) :
    Alike before before graph graph :=
  ⟨rfl, rfl, rfl, fun _ => rfl, fun _ => rfl, fun _ => rfl, fun _ => rfl⟩

/-! ## Look-ups -/

/-- Graphs that are alike have the same nodes. -/
lemma node_eq (h : Alike before before' graph graph') : graph'.node = graph.node := by
  funext id
  rw [node, node, h.nodes]

/-- Graphs that are alike have the same containers. -/
lemma container_eq (h : Alike before before' graph graph') :
    graph'.container = graph.container := by
  funext page
  rw [container, container, h.containers]

/-- Graphs that are alike have containers of the same geometry. -/
lemma layout_eq (h : Alike before before' graph graph') : graph'.layout = graph.layout := by
  rw [layout, layout, h.header]

/-- **Alike graphs answer alike.**

**Proof sketch.** All answers are read from the nodes, the containers and the header. -/
theorem answersAlike (h : Alike before before' graph graph') : AnswersAlike graph graph' where
  codec := h.codec
  entryPoint := by rw [h.header]
  maxLevel := by rw [h.header]
  keys := (Std.TreeMap.Equiv.of_forall_constGet?_eq h.nodes).keys_eq
  neighbors := by
    funext layer id
    rw [neighbors, neighbors, h.node_eq]
  parent := by
    funext layer id
    rw [parent, parent, h.node_eq]
  vector := by
    funext id
    rw [vector, vector, h.node_eq, h.layout_eq, h.container_eq]

/-- Alike graphs show the same contents.

**Proof sketch.** What a graph shows are the values that can be read, and these are the same in
both. -/
lemma contents_eq (h : Alike before before' graph graph') {field : FieldRecord}
    {base base' contents contents' : GraphContents} (hshows : graph.Shows field base contents)
    (hshows' : graph'.Shows field base' contents') : contents' = contents := by
  have hinj : ∀ {α : Type}, Function.Injective (Except.ok : α → Except IndexError α) :=
    @fun _ _ _ hab => Except.ok.inj hab
  have hheader : contents'.header = contents.header := by
    rw [← hshows'.header, h.header, hshows.header]
  have hnode : contents'.node = contents.node := by
    funext id
    exact Option.map_injective hinj ((hshows'.node id).symm.trans ((h.nodes id).trans
      (hshows.node id)))
  have hcontainer : contents'.container = contents.container := by
    funext page
    exact Option.map_injective hinj ((hshows'.container page).symm.trans ((h.containers page).trans
      (hshows.container page)))
  rw [← show GraphContents.mk contents'.header contents'.node contents'.container = contents' from
    rfl, hheader, hnode, hcontainer]

/-! ## Changes -/

/-- Graphs that are alike still are with the same new node. -/
theorem addNode (h : Alike before before' graph graph') (id : VectorId) (node : NodeRecord) :
    Alike before before' (graph.addNode id node) (graph'.addNode id node) :=
  { h with
    nodes := by
      intro other
      simp only [FieldGraph.addNode, Std.TreeMap.getElem?_insert, h.nodes]
    writtenNode := by
      intro other
      have hwritten := h.writtenNode other
      simp only [FieldGraph.writtenNode, node_addNode] at hwritten ⊢
      simp only [FieldGraph.addNode, Std.TreeSet.mem_insert, Std.LawfulEqCmp.compare_eq_iff_eq]
      by_cases hid : other = id
      · simp [hid]
      · have hne : id ≠ other := Ne.symm hid
        simpa only [hid, hne, false_or, if_false] using hwritten }

/-- Graphs that are alike still are with the same new container.

**Proof sketch.** The container that has been put in is the same in both graphs, and it will be
written in both. -/
theorem setContainer (h : Alike before before' graph graph') (page : PageId)
    (container : Container) :
    Alike before before' (graph.setContainer page container) (graph'.setContainer page container) :=
  { h with
    containers := by
      intro other
      simp only [FieldGraph.setContainer, Std.TreeMap.getElem?_insert, h.containers]
    writtenContainer := by
      intro other
      have hwritten := h.writtenContainer other
      simp only [FieldGraph.writtenContainer, setContainer_container] at hwritten ⊢
      simp only [FieldGraph.setContainer, Std.TreeSet.mem_insert,
        Std.LawfulEqCmp.compare_eq_iff_eq]
      by_cases hpage : other = page
      · simp [hpage]
      · have hne : page ≠ other := Ne.symm hpage
        simpa only [hpage, hne, false_or, if_false] using hwritten }

/-- Graphs that are alike still are with the same new header. -/
lemma withHeader (h : Alike before before' graph graph') (header : GraphHeader) :
    Alike before before' { graph with header } { graph' with header } :=
  { h with header := rfl }

/-- Graphs that are alike still are after the same change of a node. -/
lemma modifyNode (h : Alike before before' graph graph') (id : VectorId)
    (change : NodeRecord → NodeRecord) :
    Alike before before' (graph.modifyNode id change) (graph'.modifyNode id change) := by
  have hnode := h.nodes id
  cases hfound : graph.nodes[id]? with
  | none =>
    rw [hfound] at hnode
    simpa only [FieldGraph.modifyNode, hfound, hnode] using h
  | some found =>
    rw [hfound] at hnode
    cases found with
    | error e => simpa only [FieldGraph.modifyNode, hfound, hnode] using h
    | ok node =>
      rw [modifyNode_eq (node_eq_ok_iff_getElem?.mpr hfound),
        modifyNode_eq (node_eq_ok_iff_getElem?.mpr hnode)]
      exact h.addNode id (change node)

/-- Graphs that are alike still are with the same new list of neighbors. -/
lemma setNeighbors (h : Alike before before' graph graph') (layer : Nat) (id : VectorId)
    (list : List VectorId) :
    Alike before before' (graph.setNeighbors layer id list)
      (graph'.setNeighbors layer id list) := by
  rw [FieldGraph.setNeighbors, FieldGraph.setNeighbors, h.node_eq]
  split
  · split
    · exact h.modifyNode id _
    · exact h
  · exact h

/-- Graphs that are alike still are with the same new parent. -/
lemma setParent (h : Alike before before' graph graph') (layer : Nat) (id parent : VectorId) :
    Alike before before' (graph.setParent layer id parent) (graph'.setParent layer id parent) := by
  rw [FieldGraph.setParent, FieldGraph.setParent, h.node_eq]
  split
  · split
    · exact h.modifyNode id _
    · exact h
  · exact h

/-- **Alike graphs go on in step.** -/
theorem lockstep (before before' : Bytes → Option Bytes) : Lockstep (Alike before before') where
  answers h := h.answersAlike
  setNeighbors h layer id list := h.setNeighbors layer id list
  setParent h layer id parent := h.setParent layer id parent

/-- **Both graphs take in a node**, or neither does. -/
theorem insert (h : Alike before before' graph graph') (id : VectorId) (location : SlotRef)
    (level limit width : Nat) :
    Except.Rel (Alike before before') (graph.insert id location level limit width)
      (graph'.insert id location level limit width) := by
  refine ((lockstep before before').insert (h.answersAlike.contains_eq id)
    (h.addNode id (.blank level location)) limit width).imp ?_
  rintro _ _ ⟨linked, linked', hlinked, rfl, rfl⟩
  rw [hlinked.header]
  exact hlinked.withHeader _

end Alike

end Proximity.FieldGraph

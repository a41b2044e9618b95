import Proximity.Proofs.Graph.Contents
import Proximity.Proofs.Graph.Selection
import Proximity.Proofs.Graph.Walks

set_option relaxedAutoImplicit false
set_option autoImplicit false

/-!
# Linking a node on one layer

A new node is linked on a sound layer by finding a parent with room, selecting neighbors, and having
each of them and then the parent take the new node into its list. None of these steps fails, and in
the end the layer has gained the new node and nothing else has changed. A list that is cut back
never loses a tree edge, because tree edges are pinned and there are never more of them than the
limit allows.

## Main definitions

* `Proximity.GraphContents.stored` — the vectors whose stored form can be read.
* `Proximity.GraphContents.Ready` — a sound layer and a new node that is to be linked on it.
* `Proximity.GraphContents.Joining` — the new node is linked, and some nodes have taken it in.

## Main results

* `Proximity.FieldGraph.Shows.exists_prune` — what cutting back a list keeps.
* `Proximity.FieldGraph.Shows.exists_connect` — taking a new node into a list.
* `Proximity.FieldGraph.Shows.exists_findParent` — there is a parent with room.
* `Proximity.FieldGraph.Shows.exists_linkLayer` — the layer gains the new node.
-/

namespace Proximity

namespace GraphContents

/-- The vectors whose stored form can be read. -/
def stored (contents : GraphContents) : Set VectorId :=
  {id | ∃ bytes, contents.Stores id bytes}

/-- A vector that is stored has a node. -/
lemma exists_node_of_stored {contents : GraphContents} {id : VectorId}
    (h : id ∈ contents.stored) : ∃ node, contents.node id = some node := by
  obtain ⟨_, node, _, _, hnode, _⟩ := h
  exact ⟨node, hnode⟩

/-- Changing links loses no node. -/
lemma Relinks.stored {contents next : GraphContents} {layers : Set Nat}
    (h : Relinks layers contents next) : contents.stored ⊆ next.stored := by
  rintro id ⟨bytes, hbytes⟩
  exact ⟨bytes, h.stores hbytes⟩

/-- A sound layer with some members, and a new node on it that has not been linked. -/
structure Ready (contents : GraphContents) (limit layer : Nat) (members : Set VectorId)
    (id : VectorId) : Prop where
  shaped : ∀ id node, contents.node id = some node → node.Shaped
  sound : (contents.links layer).Sound limit members
  finite : members.Finite
  members_on : members ⊆ contents.members layer
  new_on : id ∈ contents.members layer
  members_stored : members ⊆ contents.stored
  new_stored : id ∈ contents.stored
  new : id ∉ members

/-- What changes only links of other layers leaves a layer ready. -/
lemma Ready.relinks {contents next : GraphContents} {limit layer : Nat} {members : Set VectorId}
    {id : VectorId} {layers : Set Nat} (h : Ready contents limit layer members id)
    (hrelinks : Relinks layers contents next) (hlayer : layer ∉ layers) :
    Ready next limit layer members id where
  shaped := hrelinks.shaped h.shaped
  sound := hrelinks.links layer hlayer ▸ h.sound
  finite := h.finite
  members_on := hrelinks.members layer ▸ h.members_on
  new_on := hrelinks.members layer ▸ h.new_on
  members_stored := h.members_stored.trans hrelinks.stored
  new_stored := hrelinks.stored h.new_stored
  new := h.new

/-- The new node has its own links on the layer, and some of the nodes that it has selected have
taken it in. -/
structure Joining (start : GraphContents) (limit layer : Nat) (selected taken : List VectorId)
    (id parent : VectorId) (now : GraphContents) : Prop where
  relinks : Relinks {layer} start now
  attaching : (start.links layer).Attaching limit selected taken id parent (now.links layer)

end GraphContents

namespace FieldGraph.Shows

open GraphContents

variable {graph : FieldGraph} {field : FieldRecord} {base contents : GraphContents}
  {id parent : VectorId} {layer limit width : Nat} {members : Set VectorId} {query : Bytes}
  {selected taken : List VectorId}

/-! ## Cutting back -/

/-- The candidates for the neighbors of a vector are the vectors of the list. -/
lemma exists_scored (h : graph.Shows field base contents) (hid : id ∈ contents.stored)
    {list : List VectorId} (hlist : ∀ other ∈ list, other ∈ contents.stored) :
    ∃ scored : List Candidate, (list.mapM fun other => do
      return ({ distance := ← graph.between id other, id := other } : Candidate)) = .ok scored ∧
        scored.map Candidate.id = list := by
  have hdistance : ∀ other, ∃ d, other ∈ list → graph.between id other = .ok d := by
    intro other
    by_cases hother : other ∈ list
    · obtain ⟨d, hd⟩ := h.exists_between hid (hlist other hother)
      exact ⟨d, fun _ => hd⟩
    · exact ⟨⟨0⟩, fun hin => absurd hin hother⟩
  choose distance hdistance using hdistance
  refine ⟨list.map fun other => ⟨distance other, other⟩,
    Except.mapM_eq_ok fun other hother => ?_, ?_⟩
  · rw [hdistance other hother, Except.ok_bind, Except.pure_eq_ok]
  · rw [List.map_map]
    exact List.map_id list

/-- **Cutting back a list** keeps its tree edges, and as many neighbors as the limit allows.

**Proof sketch.** The stored neighbors can be measured. A selection that pins the tree edges keeps
them, and fills what room they leave. -/
theorem exists_prune (h : graph.Shows field base contents) (layer limit : Nat)
    (hid : id ∈ contents.stored) {list : List VectorId}
    (hlist : ∀ other ∈ list, other ∈ contents.stored)
    (hnodup : list.Nodup) :
    ∃ kept, graph.prune layer limit id list = .ok kept ∧ kept.Nodup ∧ (∀ a ∈ kept, a ∈ list) ∧
      (∀ a ∈ (contents.links layer).edges id list, a ∈ kept) ∧
      kept.length = max ((contents.links layer).edges id list).length (min limit list.length) := by
  obtain ⟨node, hnode⟩ := exists_node_of_stored hid
  obtain ⟨scored, hscored, hids⟩ := h.exists_scored hid hlist
  have hedges := h.treeEdges_eq hnode layer fun other hother =>
    exists_node_of_stored (hlist other hother)
  have hperm : ((Candidate.sort scored).map Candidate.id).Perm list :=
    hids ▸ (Candidate.perm_sort scored).map Candidate.id
  obtain ⟨kept, hkept, hselects⟩ := @Selection.exists_select _ graph.between limit
    ((contents.links layer).edges id list) (Candidate.sort scored)
    (fun a ha b hb =>
      h.exists_between (hlist a (hperm.mem_iff.mp ha)) (hlist b (hperm.mem_iff.mp hb)))
    (hperm.nodup_iff.mpr hnodup)
  refine ⟨kept, ?_, hselects.nodup, fun a ha => hperm.mem_iff.mp (hselects.mem a ha),
    fun a ha => hselects.pinned_mem a (hperm.mem_iff.mpr (List.mem_of_mem_filter ha)) ha, ?_⟩
  · rw [FieldGraph.prune, hscored, Except.ok_bind, hedges, Except.ok_bind, hkept]
  · have hpinned : (Selection.pinnedIds ((contents.links layer).edges id list)
        (Candidate.sort scored)).Perm ((contents.links layer).edges id list) := by
      refine (hperm.filter _).trans (List.Perm.of_eq ?_)
      refine List.filter_congr fun other hother => ?_
      rw [Bool.eq_iff_iff, List.contains_iff_mem, Links.edges, List.mem_filter]
      exact ⟨fun hin => hin.2, fun hjoined => ⟨hother, hjoined⟩⟩
    rw [hselects.length_eq, hpinned.length_eq, ← hperm.length_eq, List.length_map]

/-! ## Taking the new node into a list -/

/-- Replacing the list of an old node by one that has taken the new node in. -/
lemma exists_setNeighbors_taking {start : GraphContents} (h : graph.Shows field base contents)
    (hready : Ready start limit layer members id)
    (hjoining : Joining start limit layer selected taken id parent contents) {a : VectorId}
    (ha : a ∈ members) {list : List VectorId}
    (htakes : (start.links layer).Takes limit id a list) :
    ∃ next, (graph.setNeighbors layer a list).Shows field base next ∧
      Joining start limit layer selected (a :: taken) id parent next ∧
      (next.links layer).list a = list := by
  obtain ⟨node, hnode, hlevel⟩ := (hjoining.relinks.members layer).symm ▸ hready.members_on ha
  obtain ⟨next, hshows, hrelinks, hparents, hlists⟩ :=
    h.exists_setNeighbors hnode (hjoining.relinks.shaped hready.shaped a node hnode) hlevel list
  exact ⟨next, hshows, ⟨hjoining.relinks.trans hrelinks, hjoining.attaching.take
    (ne_of_mem_of_not_mem ha hready.new) hparents hlists htakes⟩, by rw [hlists, if_pos rfl]⟩

/-- The tree edges in the list of a node that has taken the new node in are not too many: the parent
has room for one more, and the others have no new ones. -/
lemma length_edges_append_le {start : GraphContents}
    (hready : Ready start limit layer members id)
    (hjoining : Joining start limit layer selected taken id parent contents) {a : VectorId}
    (ha : a ∈ members)
    (hroom : a = parent →
      ((start.links layer).edges a ((start.links layer).list a)).length < limit) :
    ((contents.links layer).edges a ((start.links layer).list a ++ [id])).length ≤ limit := by
  have hle : ((start.links layer).edges a ((start.links layer).list a)).length ≤ limit :=
    (List.length_filter_le _ _).trans (hready.sound.length_le a ha)
  rw [hjoining.attaching.edges_append hready.sound hready.new ha, List.length_append]
  split_ifs with hparent
  · have hlt := hroom hparent
    rw [List.length_singleton]
    omega
  · rw [List.length_nil]
    omega

/-- **A node takes the new one into its list** and keeps its tree edges. The parent has room for one
more, so it keeps the new node too.

**Proof sketch.** Before the list is cut back it consists of old neighbors and the new node, and the
tree edges in it are the old ones, with the edge to the new node if this is the parent. Either way
there are no more of them than the limit allows, and cutting back keeps them all. -/
theorem exists_connect {start : GraphContents} (h : graph.Shows field base contents)
    (hready : Ready start limit layer members id)
    (hjoining : Joining start limit layer selected taken id parent contents) {a : VectorId}
    (ha : a ∈ members) (hnot : a ∉ taken)
    (hroom : a = parent →
      ((start.links layer).edges a ((start.links layer).list a)).length < limit) :
    ∃ graph' next, graph.connect layer limit a id = .ok graph' ∧ graph'.Shows field base next ∧
      Joining start limit layer selected (a :: taken) id parent next ∧
      (a = parent → id ∈ (next.links layer).list a) := by
  have hstored : members ⊆ contents.stored := hready.members_stored.trans hjoining.relinks.stored
  obtain ⟨node, hnode⟩ := exists_node_of_stored (hstored ha)
  have hmem := hready.sound.mem a ha
  have hold := hjoining.attaching.list_old a (ne_of_mem_of_not_mem ha hready.new) hnot
  have hfew := length_edges_append_le hready hjoining ha hroom
  have hedges := hjoining.attaching.edges_append hready.sound hready.new ha
  set list := (start.links layer).list a with hlist
  have hnew : id ∉ list := fun hin => hready.new (hmem id hin)
  have hlength : (list ++ [id]).length = list.length + 1 := by simp
  have hnodup : (list ++ [id]).Nodup := by
    refine List.nodup_append.mpr ⟨hready.sound.nodup a ha, List.nodup_singleton id, ?_⟩
    rintro b hb c hc rfl
    exact hnew (List.mem_singleton.mp hc ▸ hb)
  have hdrawn : ∀ b ∈ list ++ [id], b = id ∨ b ∈ list := fun b hb =>
    (List.mem_append.mp hb).symm.imp_left List.mem_singleton.mp
  rw [FieldGraph.connect, h.neighbors_eq hnode, Except.ok_bind, hold,
    if_neg fun hin => hnew (List.contains_iff_mem.mp hin)]
  by_cases hlong : limit < (list ++ [id]).length
  · rw [if_pos hlong]
    have hliststored : ∀ b ∈ list ++ [id], b ∈ contents.stored := fun b hb =>
      (hdrawn b hb).elim (fun hid => hid ▸ hjoining.relinks.stored hready.new_stored) fun hin =>
        hstored (hmem b hin)
    obtain ⟨kept, hprune, hkept, hkeptsub, hkeptedges, hkeptlength⟩ :=
      h.exists_prune layer limit (hstored ha) hliststored hnodup
    obtain ⟨next, hshows, hnext, hsame⟩ := h.exists_setNeighbors_taking hready hjoining ha {
      drawn := fun b hb => hdrawn b (hkeptsub b hb)
      keeps := fun b hb hjoined => hkeptedges b (hedges ▸ List.mem_append_left _
        (List.mem_filter.mpr ⟨hb, decide_eq_true hjoined⟩))
      nodup := hkept
      length_eq := by rw [← hlist]; omega }
    refine ⟨_, next, by rw [hprune, Except.ok_bind, Except.pure_eq_ok], hshows, hnext,
      fun hparent => ?_⟩
    rw [hsame]
    refine hkeptedges id ?_
    rw [hedges, if_pos hparent]
    exact List.mem_append_right _ (List.mem_singleton_self id)
  · rw [if_neg hlong]
    obtain ⟨next, hshows, hnext, hsame⟩ := h.exists_setNeighbors_taking hready hjoining ha {
      drawn := hdrawn
      keeps := fun b hb _ => List.mem_append_left _ hb
      nodup := hnodup
      length_eq := by rw [← hlist]; omega }
    refine ⟨_, next, rfl, hshows, hnext, fun _ => ?_⟩
    rw [hsame]
    exact List.mem_append_right _ (List.mem_singleton_self id)

/-! ## Finding a parent -/

/-- On a sound layer every node can be reached from every other. -/
lemma reflTransGen_edge (h : graph.Shows field base contents)
    (hsound : (contents.links layer).Sound limit members) (hstored : members ⊆ contents.stored)
    {a b : VectorId} (ha : a ∈ members) (hb : b ∈ members) :
    Relation.ReflTransGen (graph.layer query layer).Edge a b :=
  hsound.reflTransGen (fun _ hc _ hd =>
    (h.edge_iff (exists_node_of_stored (hstored hc)).choose_spec).mpr hd) ha hb

/-- **There is a parent with room** for one more tree edge, on a sound layer and from any candidate
on it, because the candidate reaches every node and some node has room.

**Proof sketch.** Some node of the layer has room, since one that is nobody's parent has a single
tree edge. Every candidate reaches it, so that the search does not run out of nodes before it finds
one. -/
theorem exists_findParent (h : graph.Shows field base contents)
    (hready : Ready contents limit layer members id) (hlimit : 2 ≤ limit)
    {candidates : List Candidate} (hne : candidates ≠ [])
    (hcandidates : ∀ c ∈ candidates, c.id ∈ members) :
    ∃ parent, graph.findParent query layer limit candidates = .ok parent ∧ parent ∈ members ∧
      ((contents.links layer).edges parent
        ((contents.links layer).list parent)).length < limit := by
  have hnodes : ∀ a ∈ members, ∃ node, contents.node a = some node := fun a ha =>
    exists_node_of_stored (hready.members_stored ha)
  obtain ⟨start, hstart⟩ := List.exists_mem_of_ne_nil candidates hne
  obtain ⟨free, hfree, hroom⟩ := hready.sound.exists_length_edges_lt hready.finite hlimit
  have hreach : Relation.ReflTransGen (graph.layer query layer).Edge start.id free :=
    h.reflTransGen_edge hready.sound hready.members_stored (hcandidates start hstart) hfree
  obtain ⟨parent, hparent, hmem, hlt⟩ :=
    @Layer.exists_firstWithRoom _ _ members (h.serves hready.sound hready.members_stored)
      (graph.hasRoom layer limit) (.inconsistent (.saturatedLayer layer))
      (fun a => decide (((contents.links layer).edges a ((contents.links layer).list a)).length
        < limit))
      (by
        intro a ha list hlist
        obtain ⟨node, hnode⟩ := hnodes a ha
        obtain rfl := Except.ok.inj ((h.neighbors_eq hnode layer).symm.trans hlist)
        rw [FieldGraph.hasRoom, h.treeEdges_eq hnode layer
          fun b hb => hnodes b (hready.sound.mem a ha b hb)]
        rfl)
      ∅ (candidates.map Candidate.id)
      (by
        intro a ha
        obtain ⟨c, hc, rfl⟩ := List.mem_map.mp ha
        exact hcandidates c hc)
      (fun v hv => by simp at hv)
      ⟨start.id, free, .inr (List.mem_map_of_mem hstart), hreach, decide_eq_true hroom⟩
  exact ⟨parent, hparent, hmem, of_decide_eq_true hlt⟩

/-- The candidates with the parent among them, of which there are not fewer.

**Proof sketch.** If the parent is not among the candidates it is put in its place there; its
distance can be measured since it is stored. -/
lemma exists_withParent (h : graph.Shows field base contents) {candidates : List Candidate}
    (hids : (candidates.map Candidate.id).Nodup) (hcandidates : ∀ c ∈ candidates, c.id ∈ members)
    (hparent : parent ∈ members) (hstored : parent ∈ contents.stored) :
    ∃ all, graph.withParent query candidates parent = .ok all ∧ (all.map Candidate.id).Nodup ∧
      (∀ a ∈ all.map Candidate.id, a ∈ members) ∧ parent ∈ all.map Candidate.id ∧
      candidates.length ≤ all.length := by
  have hmembers : ∀ a ∈ candidates.map Candidate.id, a ∈ members := by
    intro a ha
    obtain ⟨c, hc, rfl⟩ := List.mem_map.mp ha
    exact hcandidates c hc
  rw [FieldGraph.withParent]
  split_ifs with hin
  · obtain ⟨c, hc, hid⟩ := List.any_eq_true.mp hin
    exact ⟨candidates, rfl, hids, hmembers,
      of_decide_eq_true hid ▸ List.mem_map_of_mem hc, Nat.le_refl _⟩
  · obtain ⟨bytes, hbytes⟩ := hstored
    rw [h.distanceTo_eq hbytes, Except.ok_bind, Except.pure_eq_ok]
    refine ⟨_, rfl, ?_⟩
    have hperm := (Candidate.perm_sort (candidates ++
      [⟨(Codec.ofOptions field.options).distance query bytes, parent⟩])).map Candidate.id
    rw [List.map_append, List.map_singleton] at hperm
    have hnew : parent ∉ candidates.map Candidate.id := by
      intro hmem
      obtain ⟨c, hc, hid⟩ := List.mem_map.mp hmem
      exact hin (List.any_eq_true.mpr ⟨c, hc, decide_eq_true hid⟩)
    refine ⟨hperm.nodup_iff.mpr ?_, fun a ha => ?_, hperm.mem_iff.mpr (by simp), by
      rw [(Candidate.perm_sort _).length_eq, List.length_append]
      exact Nat.le_add_right _ _⟩
    · refine List.nodup_append.mpr ⟨hids, List.nodup_singleton parent, ?_⟩
      rintro a ha b hb rfl
      exact hnew ((List.mem_singleton.mp hb : _ = parent) ▸ ha)
    · rcases List.mem_append.mp (hperm.mem_iff.mp ha) with ha | ha
      · exact hmembers a ha
      · exact List.mem_singleton.mp ha ▸ hparent

/-! ## The layer -/

/-- The new node selects its neighbors, of which its parent is one.

**Proof sketch.** The parent is set first, then the neighbors are selected with the parent pinned.
There is room for it, since the limit is two at least. -/
lemma exists_joining (h : graph.Shows field base contents)
    (hready : Ready contents limit layer members id) (hlimit : 2 ≤ limit)
    {candidates : List Candidate} (hids : (candidates.map Candidate.id).Nodup)
    (hcandidates : ∀ a ∈ candidates.map Candidate.id, a ∈ members)
    (hparent : parent ∈ candidates.map Candidate.id) :
    ∃ selected,
      Selection.select (graph.setParent layer id parent).between limit [parent] candidates =
        .ok selected ∧ selected.Nodup ∧ (∀ a ∈ selected, a ∈ members) ∧ parent ∈ selected ∧
      selected.length = min limit candidates.length ∧
      ∃ next, ((graph.setParent layer id parent).setNeighbors layer id selected).Shows field base
          next ∧ Joining contents limit layer selected [] id parent next := by
  obtain ⟨node, hnode, hlevel⟩ := hready.new_on
  obtain ⟨between, hbetween, hrelinks, hlists, hparents⟩ :=
    h.exists_setParent hnode (hready.shaped id node hnode) hlevel parent
  have hstored : ∀ a ∈ candidates.map Candidate.id, ∃ bytes, between.Stores a bytes := fun a ha =>
    hrelinks.stored (hready.members_stored (hcandidates a ha))
  obtain ⟨selected, hselected, hselects⟩ := @Selection.exists_select _
    (graph.setParent layer id parent).between limit [parent] candidates
    (fun a ha b hb => hbetween.exists_between (hstored a ha) (hstored b hb)) hids
  obtain ⟨node', hnode', hlevel'⟩ := (hrelinks.members layer).symm ▸ hready.new_on
  obtain ⟨next, hnext, hrelinks', hparents', hlists'⟩ := hbetween.exists_setNeighbors hnode'
    (hrelinks.shaped hready.shaped id node' hnode') hlevel' selected
  have hpinned : (Selection.pinnedIds [parent] candidates).length ≤ 1 := by
    have hsub : (Selection.pinnedIds [parent] candidates) ⊆ [parent] := fun a ha =>
      List.contains_iff_mem.mp (List.of_mem_filter ha)
    exact ((hids.filter _).subperm hsub).length_le
  have hpos : 0 < candidates.length := by
    rw [← List.length_map Candidate.id]
    exact List.length_pos_of_mem hparent
  refine ⟨selected, hselected, hselects.nodup, fun a ha => hcandidates a (hselects.mem a ha),
    hselects.pinned_mem parent hparent (List.mem_singleton_self parent), ?_, next, hnext,
    hrelinks.trans hrelinks', ?_⟩
  · have hlength := hselects.length_eq
    omega
  · exact {
      list_new := by rw [hlists', if_pos rfl]
      parent_new := by rw [hparents', hparents, if_pos rfl]
      parent_old := fun a ha => by rw [hparents', hparents, if_neg ha]
      list_old := fun a ha _ => by rw [hlists', if_neg ha, hlists]
      takes := fun a ha => absurd ha List.not_mem_nil }

/-- The selected neighbors other than the parent take the new node in, one after the other.

**Proof sketch.** Induction on the neighbors. Those that are connected later are not among those
that have taken the new node in. -/
lemma exists_foldlM_connect {start : GraphContents} (h : graph.Shows field base contents)
    (hready : Ready start limit layer members id)
    (hjoining : Joining start limit layer selected taken id parent contents)
    {others : List VectorId} (hnodup : others.Nodup)
    (hothers : ∀ a ∈ others, a ∈ members ∧ a ∉ taken ∧ a ≠ parent) :
    ∃ graph' next,
      others.foldlM (fun graph other => graph.connect layer limit other id) graph = .ok graph' ∧
        graph'.Shows field base next ∧
        Joining start limit layer selected (others.reverse ++ taken) id parent next := by
  induction others generalizing graph contents taken with
  | nil => exact ⟨graph, contents, rfl, h, hjoining⟩
  | cons a others ih =>
    obtain ⟨hfirst, hrest⟩ := List.nodup_cons.mp hnodup
    obtain ⟨ham, hnot, hap⟩ := hothers a List.mem_cons_self
    obtain ⟨graph₁, now, hconnect, hnow, hjoining₁, _⟩ :=
      h.exists_connect hready hjoining ham hnot fun heq => absurd heq hap
    obtain ⟨graph₂, next, hfold, hnext, hjoining₂⟩ := ih hnow hjoining₁ hrest fun b hb => by
      obtain ⟨hbm, hnotb, hbp⟩ := hothers b (List.mem_cons_of_mem a hb)
      have hba : b ≠ a := ne_of_mem_of_not_mem hb hfirst
      exact ⟨hbm, fun hin => (List.mem_cons.mp hin).elim hba hnotb, hbp⟩
    refine ⟨graph₂, next, ?_, hnext, ?_⟩
    · rw [List.foldlM_cons, hconnect, Except.ok_bind, hfold]
    · rw [List.reverse_cons, List.append_assoc, List.singleton_append]
      exact hjoining₂

/-- **Linking a new node on a sound layer succeeds, and the layer gains the node.** It answers
candidates on the layer from which the search can go on below.

**Proof sketch.** The search finds as many candidates as the limit asks for, or all nodes of the
layer, whether or not the parent is one of them. From then on the lists that are read are those of
nodes that have not taken the new node in, and these are what they were. -/
theorem exists_linkLayer (h : graph.Shows field base contents)
    (hready : Ready contents limit layer members id) (hlimit : 2 ≤ limit) (width : Nat)
    {entries : List Candidate} (hne : entries ≠ [])
    (hentries : ∀ e ∈ entries, e.id ∈ members ∧
      contents.Measures (.ofOptions field.options) query e) :
    ∃ graph' next found, graph.linkLayer id query limit width layer entries = .ok (graph', found) ∧
      graph'.Shows field base next ∧ Relinks {layer} contents next ∧
      (contents.links layer).Gains limit members id (next.links layer) ∧ found ≠ [] ∧
      ∀ c ∈ found, c.id ∈ members ∧ contents.Measures (.ofOptions field.options) query c := by
  have hserves := @serves _ _ _ _ layer query h _ _ hready.sound hready.members_stored
  have hmeasured : ∀ e ∈ entries, e.id ∈ members ∧
      (graph.layer query layer).Measures e := fun e he =>
    ⟨(hentries e he).1, h.measures (hentries e he).2 layer⟩
  obtain ⟨found, hsearch, hfinds⟩ := Layer.exists_beamSearch hserves hmeasured (max width limit)
  obtain ⟨entry, hentry⟩ := List.exists_mem_of_ne_nil entries hne
  have hfound : found ≠ [] :=
    hfinds.ne_nil (by omega) (hmeasured entry hentry).2 ⟨entry, hentry, rfl⟩
  have hcount := hfinds.length_eq hready.finite (hmeasured entry hentry).2 ⟨entry, hentry, rfl⟩
    fun v hv => h.reflTransGen_edge hready.sound hready.members_stored (hentries entry hentry).1 hv
  obtain ⟨parent, hfind, hparent, hroom⟩ :=
    @exists_findParent _ _ _ _ _ _ _ _ query h hready hlimit found hfound hfinds.mem
  obtain ⟨node, hnode, hlevel⟩ := hready.new_on
  obtain ⟨between, hbetween, hrelinks, _, _⟩ :=
    h.exists_setParent hnode (hready.shaped id node hnode) hlevel parent
  obtain ⟨candidates, hwith, hids, hcandidates, hin, hmore⟩ :=
    @exists_withParent _ _ _ _ _ _ query hbetween found hfinds.ids_nodup hfinds.mem hparent
      (hrelinks.stored (hready.members_stored hparent))
  obtain ⟨selected, hselect, hnodup, hselected, hparentin, hlength, now, hnow, hjoining⟩ :=
    h.exists_joining hready hlimit hids hcandidates hin
  -- The candidates are as many as the limit asks for, or all nodes of the layer.
  have hall : selected.length = min limit members.ncard := by
    have hle : candidates.length ≤ members.ncard := by
      rw [← List.length_map Candidate.id, ← Layer.ncard_of_nodup hids]
      exact Set.ncard_le_ncard hcandidates hready.finite
    omega
  have hmem : ∀ a, a ∈ selected.filter (fun other => other ≠ parent) ↔
      a ∈ selected ∧ a ≠ parent := fun a => by
    rw [List.mem_filter, decide_eq_true_eq]
  obtain ⟨graph₁, now₁, hfold, hnow₁, hjoining₁⟩ :=
    hnow.exists_foldlM_connect hready hjoining (hnodup.filter _) fun a ha =>
      ⟨hselected a ((hmem a).mp ha).1, List.not_mem_nil, ((hmem a).mp ha).2⟩
  rw [List.append_nil] at hjoining₁
  obtain ⟨graph₂, now₂, hconnect, hnow₂, hjoining₂, hlisted⟩ :=
    hnow₁.exists_connect hready hjoining₁ hparent
      (fun hself => ((hmem parent).mp (List.mem_reverse.mp hself)).2 rfl) fun _ => hroom
  have hattaching : (contents.links layer).Attaching limit selected selected id parent
      (now₂.links layer) := hjoining₂.attaching.congr fun a => by
    rw [List.mem_cons, List.mem_reverse, hmem]
    by_cases hap : a = parent <;> simp [hap, hparentin]
  refine ⟨graph₂, now₂, found, ?_, hnow₂, hjoining₂.relinks,
    hattaching.gains hready.sound hready.new hnodup hselected hall hparentin (hlisted rfl), hfound,
    fun c hc => ⟨hfinds.mem c hc, h.measures_of (hready.members_stored (hfinds.mem c hc))
      (hfinds.measured c hc)⟩⟩
  simp only [FieldGraph.linkLayer, hsearch, hfind, hwith, hselect, hfold, hconnect,
    Except.ok_bind, Except.pure_eq_ok]

end FieldGraph.Shows

end Proximity

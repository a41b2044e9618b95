import Proximity.Proofs.Container
import Proximity.Proofs.Graph.Linking

set_option relaxedAutoImplicit false
set_option autoImplicit false

/-!
# Where vectors lie

The containers of a field, in the order of their pages, hold the vectors of the field in the order
in which they were accepted. Every container but the last is full, and the last one is open. A new
vector goes into the open container, or into a new one behind it if that is full or there is none.

## Main definitions

* `Proximity.Accepted` — a vector that a field has accepted.
* `Proximity.Shelf` — a container with the vectors that were put into it.
* `Proximity.GraphContents.Shelved` — the containers of a graph.
* `Proximity.GraphContents.Placed` — every node knows its place.
* `Proximity.GraphContents.Roomy` — a container with a free slot, behind full ones.

## Main results

* `Proximity.GraphContents.Shelved.stores` — every vector that has been put away can be read.
* `Proximity.GraphContents.Roomy.shelved` — one more vector is put away.
-/

namespace Proximity

/-- A vector that a field has accepted, as it was given and as it is stored. -/
structure Accepted where
  /-- The name of the vector. -/
  id : VectorId
  /-- The vector as it was given. -/
  raw : Bytes
  /-- The stored form of the vector. -/
  stored : Bytes
deriving DecidableEq

/-- What a container lists of a vector. -/
def Accepted.entry (vector : Accepted) : VectorId × Bytes :=
  (vector.id, vector.stored)

/-- A container with the vectors that were put into it, in slot order. -/
structure Shelf where
  /-- The page of the container. -/
  page : PageId
  /-- The vectors in the container. -/
  vectors : List Accepted

namespace GraphContents

/-- The containers of the graph are these, in the order of their pages; all but the last are
full. -/
structure Shelved (contents : GraphContents) (layout : ContainerLayout) (shelves : List Shelf) :
    Prop where
  ascending : shelves.Pairwise fun a b => a.page.number < b.page.number
  holds : ∀ shelf ∈ shelves, ∃ container, contents.container shelf.page = some container ∧
    container.Holds layout (shelf.vectors.map Accepted.entry)
  listed : ∀ page container, contents.container page = some container →
    ∃ shelf ∈ shelves, shelf.page = page
  opened : contents.header.openContainer = shelves.getLast?.map Shelf.page
  nonempty : ∀ shelf ∈ shelves, shelf.vectors ≠ []
  full : ∀ shelf ∈ shelves.dropLast, shelf.vectors.length = layout.slots

/-- Every vector has a node, and the node knows the slot of the vector. -/
def Placed (contents : GraphContents) (shelves : List Shelf) : Prop :=
  ∀ shelf ∈ shelves, ∀ i vector, shelf.vectors[i]? = some vector →
    ∃ node, contents.node vector.id = some node ∧ node.location = ⟨shelf.page, UInt8.ofNat i⟩

/-- A container with a free slot stands behind full ones. -/
structure Roomy (contents : GraphContents) (layout : ContainerLayout) (before : List Shelf)
    (last : Shelf) (container : Container) : Prop where
  ascending : (before ++ [last]).Pairwise fun a b => a.page.number < b.page.number
  holds : ∀ shelf ∈ before, ∃ container, contents.container shelf.page = some container ∧
    container.Holds layout (shelf.vectors.map Accepted.entry)
  holds_last : container.Holds layout (last.vectors.map Accepted.entry)
  listed : ∀ page container, contents.container page = some container →
    page = last.page ∨ ∃ shelf ∈ before, shelf.page = page
  nonempty : ∀ shelf ∈ before, shelf.vectors ≠ []
  full : ∀ shelf ∈ before, shelf.vectors.length = layout.slots
  room : last.vectors.length < layout.slots

variable {contents : GraphContents} {layout : ContainerLayout} {shelves before : List Shelf}
  {last : Shelf} {container : Container} {page : PageId}

/-! ## Reading -/

/-- **Every vector that has been put away can be read.**

**Proof sketch.** The node of the vector has its place, and the container holds it there. -/
theorem Shelved.stores (h : contents.Shelved layout shelves) (hplaced : contents.Placed shelves)
    (hlayout : ContainerLayout.forVectorLength? contents.header.vectorLength = some layout)
    (hfits : layout.Fits) {vector : Accepted} (hvector : vector ∈ shelves.flatMap Shelf.vectors) :
    contents.Stores vector.id vector.stored := by
  obtain ⟨shelf, hshelf, hin⟩ := List.mem_flatMap.mp hvector
  obtain ⟨i, hi⟩ := List.mem_iff_getElem?.mp hin
  obtain ⟨node, hnode, hlocation⟩ := hplaced shelf hshelf i vector hi
  obtain ⟨container, hcontainer, hholds⟩ := h.holds shelf hshelf
  have hentry : (shelf.vectors.map Accepted.entry)[i]? = some vector.entry := by
    rw [List.getElem?_map, hi, Option.map_some]
  refine ⟨node, layout, container, hnode, hlayout, by rw [hlocation]; exact hcontainer, ?_⟩
  rw [hlocation]
  exact hholds.vector_eq hfits hentry shelf.page

/-- A vector that can be read with a new node in place can be read without it. -/
lemma Stores.of_setNode {id other : VectorId} {node : NodeRecord} {bytes : Bytes}
    (h : (contents.setNode id node).Stores other bytes) (hne : other ≠ id) :
    contents.Stores other bytes := by
  obtain ⟨node', layout, container, hnode', hrest⟩ := h
  exact ⟨node', layout, container, by rwa [node_setNode_of_ne hne] at hnode', hrest⟩

/-! ## A container with a free slot -/

/-- The last container has a free slot if it is not full.

**Proof sketch.** The shelves before the last one are full, and the last one is taken apart from
them. -/
lemma Shelved.roomy_last (h : contents.Shelved layout (before ++ [last]))
    (hroom : last.vectors.length < layout.slots) :
    ∃ container, contents.container last.page = some container ∧
      contents.Roomy layout before last container := by
  obtain ⟨container, hcontainer, hholds⟩ := h.holds last (by simp)
  refine ⟨container, hcontainer, ?_⟩
  exact {
    ascending := h.ascending
    holds := fun shelf hshelf => h.holds shelf (List.mem_append_left _ hshelf)
    holds_last := hholds
    listed := by
      intro page found hfound
      obtain ⟨shelf, hshelf, rfl⟩ := h.listed page found hfound
      rcases List.mem_append.mp hshelf with hin | hin
      · exact .inr ⟨shelf, hin, rfl⟩
      · exact .inl (congrArg Shelf.page (List.mem_singleton.mp hin))
    nonempty := fun shelf hshelf => h.nonempty shelf (List.mem_append_left _ hshelf)
    full := fun shelf hshelf => h.full shelf (by rwa [List.dropLast_concat])
    room := hroom }

/-- A new container behind full ones has a free slot. -/
lemma Shelved.roomy_new (h : contents.Shelved layout shelves) (hfits : layout.Fits)
    (hfull : ∀ shelf ∈ shelves, shelf.vectors.length = layout.slots)
    (hpage : ∀ shelf ∈ shelves, shelf.page.number < page.number) :
    contents.Roomy layout shelves ⟨page, []⟩ (.blank layout) where
  ascending := List.pairwise_append.mpr ⟨h.ascending, List.pairwise_singleton _ _, by
    intro a ha b hb
    rw [List.mem_singleton.mp hb]
    exact hpage a ha⟩
  holds := h.holds
  holds_last := Container.Holds.blank layout
  listed page found hfound := .inr (h.listed page found hfound)
  nonempty := h.nonempty
  full := hfull
  room := hfits.slots_pos

/-- **One more vector is put away** into the container with a free slot, which is open then.

**Proof sketch.** The other shelves keep their containers, since the pages are in ascending order
and hence different. -/
theorem Roomy.shelved (h : contents.Roomy layout before last container) {vector : Accepted}
    {next : Container}
    (hnext : next.Holds layout ((last.vectors ++ [vector]).map Accepted.entry)) :
    ({ contents.setContainer last.page next with
      header := { contents.header with openContainer := some last.page } } :
        GraphContents).Shelved layout (before ++ [⟨last.page, last.vectors ++ [vector]⟩]) where
  ascending := by
    have hasc := List.pairwise_append.mp h.ascending
    refine List.pairwise_append.mpr ⟨hasc.1, List.pairwise_singleton _ _, fun a ha b hb => ?_⟩
    rw [List.mem_singleton.mp hb]
    exact hasc.2.2 a ha last (by simp)
  holds shelf hshelf := by
    rcases List.mem_append.mp hshelf with hin | hin
    · obtain ⟨found, hfound, hholds⟩ := h.holds shelf hin
      have hlt := (List.pairwise_append.mp h.ascending).2.2 shelf hin last (by simp)
      have hne : shelf.page ≠ last.page := fun heq => by
        rw [heq] at hlt
        exact absurd hlt (UInt64.lt_irrefl _)
      exact ⟨found, (if_neg hne).trans hfound, hholds⟩
    · rw [List.mem_singleton.mp hin]
      exact ⟨next, if_pos rfl, hnext⟩
  listed page found hfound := by
    have hfound' : (if page = last.page then some next else contents.container page) = some found :=
      hfound
    split_ifs at hfound' with hpage
    · exact ⟨_, List.mem_append_right _ (List.mem_singleton_self _), hpage.symm⟩
    · obtain ⟨shelf, hshelf, hsame⟩ := (h.listed page found hfound').resolve_left hpage
      exact ⟨shelf, List.mem_append_left _ hshelf, hsame⟩
  opened := by rw [List.getLast?_concat, Option.map_some]
  nonempty shelf hshelf := by
    rcases List.mem_append.mp hshelf with hin | hin
    · exact h.nonempty shelf hin
    · rw [List.mem_singleton.mp hin]
      exact List.concat_ne_nil _ _
  full shelf hshelf := by
    rw [List.dropLast_concat] at hshelf
    exact h.full shelf hshelf

/-- The node of a new vector that has been put away knows its place.

**Proof sketch.** The new vector has its place behind the others of the last shelf, and the nodes of
the others are not touched. -/
lemma Placed.setNode (h : contents.Placed (before ++ [last])) {vector : Accepted}
    {node : NodeRecord} (hnew : contents.node vector.id = none)
    (hnode : node.location = ⟨last.page, UInt8.ofNat last.vectors.length⟩) :
    (contents.setNode vector.id node).Placed
      (before ++ [⟨last.page, last.vectors ++ [vector]⟩]) := by
  have hold : ∀ shelf ∈ before ++ [last], ∀ i found, shelf.vectors[i]? = some found →
      ∃ node', (contents.setNode vector.id node).node found.id = some node' ∧
        node'.location = ⟨shelf.page, UInt8.ofNat i⟩ := by
    intro shelf hshelf i found hfound
    obtain ⟨node', hnode', hlocation⟩ := h shelf hshelf i found hfound
    refine ⟨node', ?_, hlocation⟩
    rw [node_setNode_of_ne fun heq => ?_, hnode']
    rw [← heq, hnode'] at hnew
    exact absurd hnew (by simp)
  intro shelf hshelf i found hfound
  rcases List.mem_append.mp hshelf with hin | hin
  · exact hold shelf (List.mem_append_left _ hin) i found hfound
  rw [List.mem_singleton.mp hin] at hfound ⊢
  rcases Nat.lt_trichotomy i last.vectors.length with hi | rfl | hi
  · rw [List.getElem?_append_left hi] at hfound
    exact hold last (by simp) i found hfound
  · rw [List.getElem?_concat_length, Option.some.injEq] at hfound
    subst hfound
    exact ⟨node, node_setNode_self, hnode⟩
  · rw [List.getElem?_eq_none (by simp; omega)] at hfound
    exact absurd hfound (by simp)

/-- A shelf without vectors behind the others changes nothing. -/
lemma Placed.concat_empty (h : contents.Placed shelves) (page : PageId) :
    contents.Placed (shelves ++ [⟨page, []⟩]) := by
  intro shelf hshelf i found hfound
  rcases List.mem_append.mp hshelf with hin | hin
  · exact h shelf hin i found hfound
  · rw [List.mem_singleton.mp hin, List.getElem?_nil] at hfound
    exact absurd hfound (by simp)

/-- Where vectors lie depends on the containers and on which of them is open. -/
lemma Shelved.congr (h : contents.Shelved layout shelves) {next : GraphContents}
    (hcontainer : next.container = contents.container)
    (hopen : next.header.openContainer = contents.header.openContainer) :
    next.Shelved layout shelves :=
  { h with
    holds := hcontainer ▸ h.holds
    listed := hcontainer ▸ h.listed
    opened := hopen ▸ h.opened }

/-- Nodes that stay in their places know them. -/
lemma Placed.relinks (h : contents.Placed shelves) {next : GraphContents} {layers : Set Nat}
    (hrelinks : Relinks layers contents next) : next.Placed shelves := by
  intro shelf hshelf i vector hvector
  obtain ⟨node, hnode, hlocation⟩ := h shelf hshelf i vector hvector
  obtain ⟨node', hnode', _, hsame, _⟩ := hrelinks.present vector.id node hnode
  exact ⟨node', hnode', hsame.trans hlocation⟩

end GraphContents

end Proximity

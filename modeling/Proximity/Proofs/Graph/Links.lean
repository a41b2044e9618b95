import Mathlib.Data.List.Nodup
import Mathlib.Data.Set.Card
import Mathlib.Logic.Relation
import Proximity.Identifier

set_option relaxedAutoImplicit false
set_option autoImplicit false

/-!
# The links of a layer

A layer consists of neighbor lists of limited length and of a tree of parent links. Every edge of
the tree is in the lists of both of its ends, which is what keeps the layer together whatever else
the lists lose. A new node comes in as a leaf of the tree.

## Main definitions

* `Proximity.Links` — the neighbor list and the parent of each node on one layer.
* `Proximity.Links.Joined` — a tree edge.
* `Proximity.Links.Sound` — the invariant of a layer.
* `Proximity.Links.Gains` — what a layer is after a new node has been linked on it.

## Main results

* `Proximity.Links.Sound.reflTransGen` — every node can be reached from every other along the lists.
* `Proximity.Links.Sound.exists_length_edges_lt` — some node can take one more tree edge.
* `Proximity.Links.Gains.sound` — a sound layer is sound with the new node on it.
-/

namespace Proximity

/-- The neighbor list and the parent of each node on one layer. -/
structure Links where
  /-- The neighbors of a node. -/
  list : VectorId → List VectorId
  /-- The parent of a node, if it has one. -/
  parent : VectorId → Option VectorId

namespace Links

/-- Two nodes are joined by a parent link in either direction. -/
def Joined (links : Links) (a b : VectorId) : Prop :=
  links.parent a = some b ∨ links.parent b = some a

/-- Whether two vectors are joined can be read off their parents. -/
instance (links : Links) (a b : VectorId) : Decidable (links.Joined a b) :=
  inferInstanceAs (Decidable (_ ∨ _))

/-- The nodes of a list to which a node is joined. -/
def edges (links : Links) (id : VectorId) (list : List VectorId) : List VectorId :=
  list.filter fun other => decide (links.Joined id other)

/-- The second node is the parent of the first. -/
def Climbs (links : Links) (a b : VectorId) : Prop :=
  links.parent a = some b

/-- **The invariant of a layer** with some members: short lists of other members without repetition,
and one tree of parent links over all members, every edge of which is in both lists. -/
structure Sound (links : Links) (limit : Nat) (members : Set VectorId) : Prop where
  length_le : ∀ id ∈ members, (links.list id).length ≤ limit
  notMem_self : ∀ id ∈ members, id ∉ links.list id
  nodup : ∀ id ∈ members, (links.list id).Nodup
  mem : ∀ id ∈ members, ∀ other ∈ links.list id, other ∈ members
  parent_mem : ∀ id ∈ members, ∀ other, links.parent id = some other → other ∈ members
  listed : ∀ id ∈ members, ∀ other, links.parent id = some other →
    other ∈ links.list id ∧ id ∈ links.list other
  rooted : ∃ root ∈ members, links.parent root = none ∧
    ∀ id ∈ members, Relation.ReflTransGen links.Climbs id root

variable {links : Links} {limit : Nat} {members : Set VectorId}

/-- To be joined is symmetric. -/
lemma Joined.symm {a b : VectorId} (h : links.Joined a b) : links.Joined b a :=
  Or.symm h

/-- A single node without neighbors is a sound layer. -/
lemma sound_singleton {id : VectorId} (hlist : links.list id = [])
    (hparent : links.parent id = none) : links.Sound limit {id} where
  length_le a ha := by simp [Set.mem_singleton_iff.mp ha, hlist]
  notMem_self a ha := by simp [Set.mem_singleton_iff.mp ha, hlist]
  nodup a ha := by simp [Set.mem_singleton_iff.mp ha, hlist]
  mem a ha := by simp [Set.mem_singleton_iff.mp ha, hlist]
  parent_mem a ha := by simp [Set.mem_singleton_iff.mp ha, hparent]
  listed a ha := by simp [Set.mem_singleton_iff.mp ha, hparent]
  rooted := ⟨id, rfl, hparent, fun a ha => Set.mem_singleton_iff.mp ha ▸ .refl⟩

namespace Sound

/-- Whether a layer is sound depends on the links of its members only.

**Proof sketch.** Each clause speaks of members only, except for the climb to the root, which stays
among them. -/
lemma congr (h : links.Sound limit members) {other : Links}
    (hlist : ∀ id ∈ members, other.list id = links.list id)
    (hparent : ∀ id ∈ members, other.parent id = links.parent id) :
    other.Sound limit members where
  length_le id hid := hlist id hid ▸ h.length_le id hid
  notMem_self id hid := hlist id hid ▸ h.notMem_self id hid
  nodup id hid := hlist id hid ▸ h.nodup id hid
  mem id hid := hlist id hid ▸ h.mem id hid
  parent_mem id hid := hparent id hid ▸ h.parent_mem id hid
  listed id hid parent hp := by
    rw [hparent id hid] at hp
    rw [hlist id hid, hlist parent (h.parent_mem id hid parent hp)]
    exact h.listed id hid parent hp
  rooted := by
    obtain ⟨root, hroot, hnone, hclimb⟩ := h.rooted
    refine ⟨root, hroot, hparent root hroot ▸ hnone, fun id hid => ?_⟩
    -- A climb stays among the members, where both have the same parents.
    have hstay : ∀ a b, a ∈ members → links.Climbs a b → other.Climbs a b ∧ b ∈ members :=
      fun a b ha hab => ⟨(hparent a ha).trans hab, h.parent_mem a ha b hab⟩
    induction hclimb id hid using Relation.ReflTransGen.head_induction_on with
    | refl => exact .refl
    | head hab _ ih =>
      obtain ⟨hstep, hb⟩ := hstay _ _ hid hab
      exact .head hstep (ih hb)

/-- Both ends of a tree edge list each other. -/
lemma mem_of_joined (h : links.Sound limit members) {a b : VectorId} (ha : a ∈ members)
    (hb : b ∈ members) (hjoined : links.Joined a b) : b ∈ links.list a :=
  hjoined.elim (fun hup => (h.listed a ha b hup).1) fun hdown => (h.listed b hb a hdown).2

/-- The root is the only member without a parent. -/
lemma root_unique (h : links.Sound limit members) :
    ∃! root, root ∈ members ∧ links.parent root = none := by
  obtain ⟨root, hroot, hnone, hclimb⟩ := h.rooted
  refine ⟨root, ⟨hroot, hnone⟩, ?_⟩
  rintro id ⟨hid, hidnone⟩
  rcases (hclimb id hid).cases_head with rfl | ⟨parent, hparent, _⟩
  · rfl
  · rw [Climbs, hidnone] at hparent
    exact absurd hparent (by simp)

/-- **Every member can be reached from every other** along the neighbor lists: up to the root by
parent links, and down again.

**Proof sketch.** A climb to the root goes along listed neighbors, and so does the climb of the
other member when it is read backwards. -/
theorem reflTransGen (h : links.Sound limit members) {step : VectorId → VectorId → Prop}
    (hstep : ∀ a ∈ members, ∀ b ∈ links.list a, step a b) {a b : VectorId} (ha : a ∈ members)
    (hb : b ∈ members) : Relation.ReflTransGen step a b := by
  obtain ⟨root, _, _, hclimb⟩ := h.rooted
  have hup : Relation.ReflTransGen step a root := by
    induction hclimb a ha using Relation.ReflTransGen.head_induction_on with
    | refl => exact .refl
    | head hcd _ ih =>
      exact .head (hstep _ ha _ (h.listed _ ha _ hcd).1) (ih (h.parent_mem _ ha _ hcd))
  have hdown : Relation.ReflTransGen step root b := by
    clear hup
    induction hclimb b hb using Relation.ReflTransGen.head_induction_on with
    | refl => exact .refl
    | head hcd _ ih =>
      have hd := h.parent_mem _ hb _ hcd
      exact .tail (ih hd) (hstep _ hd _ (h.listed _ hb _ hcd).2)
  exact hup.trans hdown

/-- Some member is nobody's parent.

**Proof sketch.** Otherwise a choice of children would be an injection of the members into
themselves that misses the root. -/
lemma exists_childless (h : links.Sound limit members) (hfinite : members.Finite) :
    ∃ id ∈ members, ∀ child ∈ members, links.parent child ≠ some id := by
  by_contra hall
  push Not at hall
  obtain ⟨root, hroot, hnone, _⟩ := h.rooted
  choose child hchild hparent using hall
  let next : members → members := fun a => ⟨child a a.2, hchild a a.2⟩
  have hinjective : Function.Injective next := by
    rintro ⟨a, ha⟩ ⟨b, hb⟩ hab
    have hsame : child a ha = child b hb := congrArg Subtype.val hab
    have hboth := (hparent a ha).symm.trans (hsame ▸ hparent b hb)
    exact Subtype.ext (Option.some.inj hboth)
  have := hfinite.to_subtype
  obtain ⟨⟨a, ha⟩, hroot'⟩ := (Finite.injective_iff_surjective.mp hinjective) ⟨root, hroot⟩
  have hup := hparent a ha
  rw [show child a ha = root from congrArg Subtype.val hroot', hnone] at hup
  exact absurd hup (by simp)

/-- **Some member can take one more tree edge**: one that is nobody's parent has a single tree edge
at most.

**Proof sketch.** A tree edge of a member that is nobody's parent leads to its own parent, and the
list has no duplicates. -/
theorem exists_length_edges_lt (h : links.Sound limit members) (hfinite : members.Finite)
    (hlimit : 2 ≤ limit) :
    ∃ id ∈ members, (links.edges id (links.list id)).length < limit := by
  obtain ⟨id, hid, hchildless⟩ := h.exists_childless hfinite
  refine ⟨id, hid, ?_⟩
  have hnodup : (links.edges id (links.list id)).Nodup := (h.nodup id hid).filter _
  have hparent : ∀ other ∈ links.edges id (links.list id), links.parent id = some other := by
    intro other hother
    obtain ⟨hlisted, hjoined⟩ := List.mem_filter.mp hother
    exact (of_decide_eq_true hjoined).resolve_right (hchildless other (h.mem id hid other hlisted))
  rcases hedges : links.edges id (links.list id) with _ | ⟨a, _ | ⟨b, rest⟩⟩
  · simp only [List.length_nil]
    omega
  · simp only [List.length_cons, List.length_nil]
    omega
  · rw [hedges] at hnodup hparent
    have hab := (hparent a (by simp)).symm.trans (hparent b (by simp))
    exact absurd (Option.some.inj hab) (by simp at hnodup; exact hnodup.1.1)

end Sound

/-! ## A new node -/

/-- **A list has taken a new node in**: it is drawn from what it was and the new node, keeps the
tree edges that it had, and is one longer unless the limit does not allow that. -/
structure Takes (before : Links) (limit : Nat) (id a : VectorId) (list : List VectorId) : Prop where
  drawn : ∀ b ∈ list, b = id ∨ b ∈ before.list a
  keeps : ∀ b ∈ before.list a, before.Joined a b → b ∈ list
  nodup : list.Nodup
  length_eq : list.length = min limit ((before.list a).length + 1)

/-- A layer that a new node is being put into as a child of `parent`: its own links are made, some
of the nodes that it has selected have taken it in, and nothing else has changed. -/
structure Attaching (before : Links) (limit : Nat) (selected taken : List VectorId)
    (id parent : VectorId) (now : Links) : Prop where
  list_new : now.list id = selected
  parent_new : now.parent id = some parent
  parent_old : ∀ a, a ≠ id → now.parent a = before.parent a
  list_old : ∀ a, a ≠ id → a ∉ taken → now.list a = before.list a
  takes : ∀ a ∈ taken, before.Takes limit id a (now.list a)

/-- **A layer with some members has gained a new node**: as many of them are its neighbors as the
limit allows, one of these is its parent, and each of them has taken it in. All other lists and
parents are what they were, and every tree edge is in the lists of both of its ends. -/
structure Gains (before : Links) (limit : Nat) (members : Set VectorId) (id : VectorId)
    (after : Links) : Prop where
  nodup : (after.list id).Nodup
  mem : ∀ a ∈ after.list id, a ∈ members
  length_eq : (after.list id).length = min limit members.ncard
  parent_new : ∃ parent ∈ after.list id, after.parent id = some parent
  parent_old : ∀ a, a ≠ id → after.parent a = before.parent a
  list_old : ∀ a, a ≠ id → a ∉ after.list id → after.list a = before.list a
  drawn : ∀ a ∈ after.list id, ∀ b ∈ after.list a, b = id ∨ b ∈ before.list a
  nodup_old : ∀ a ∈ after.list id, (after.list a).Nodup
  length_old : ∀ a ∈ after.list id, (after.list a).length = min limit ((before.list a).length + 1)
  keeps : ∀ a ∈ insert id members, ∀ b ∈ insert id members, after.Joined a b → b ∈ after.list a

namespace Attaching

variable {before now : Links} {id parent : VectorId} {selected taken : List VectorId}

/-- One more node takes the new one in. -/
lemma take (h : Attaching before limit selected taken id parent now) {a : VectorId} (hne : a ≠ id)
    {list : List VectorId} {next : Links} (hparent : next.parent = now.parent)
    (hlist : ∀ other, next.list other = if other = a then list else now.list other)
    (htakes : before.Takes limit id a list) :
    Attaching before limit selected (a :: taken) id parent next where
  list_new := by rw [hlist, if_neg (Ne.symm hne), h.list_new]
  parent_new := by rw [hparent, h.parent_new]
  parent_old := by rw [hparent]; exact h.parent_old
  list_old b hb hnot := by
    rw [List.mem_cons, not_or] at hnot
    rw [hlist, if_neg hnot.1, h.list_old b hb hnot.2]
  takes b hb := by
    rw [hlist]
    split_ifs with hba
    · exact hba ▸ htakes
    · exact h.takes b ((List.mem_cons.mp hb).resolve_left hba)

/-- The order in which the nodes have taken the new one in does not matter. -/
lemma congr (h : Attaching before limit selected taken id parent now) {other : List VectorId}
    (hiff : ∀ a, a ∈ other ↔ a ∈ taken) : Attaching before limit selected other id parent now :=
  { h with
    list_old := fun a ha hnot => h.list_old a ha fun hin => hnot ((hiff a).mpr hin)
    takes := fun a ha => h.takes a ((hiff a).mp ha) }

/-- The new node is joined to its parent only. -/
lemma joined_new_iff (h : Attaching before limit selected taken id parent now)
    (hsound : before.Sound limit members) (hid : id ∉ members) {a : VectorId} (ha : a ∈ members) :
    now.Joined a id ↔ a = parent := by
  rw [Joined, h.parent_new, h.parent_old a (ne_of_mem_of_not_mem ha hid), Option.some.injEq]
  refine ⟨fun hjoined => ?_, fun heq => .inr heq.symm⟩
  rcases hjoined with hup | hdown
  · exact absurd (hsound.parent_mem a ha id hup) hid
  · exact hdown.symm

/-- The tree edges of an old node, in its list with the new node behind it, are those that it had
before, and the edge to the new node if it is the parent. -/
lemma edges_append (h : Attaching before limit selected taken id parent now)
    (hsound : before.Sound limit members) (hid : id ∉ members) {a : VectorId} (ha : a ∈ members) :
    now.edges a (before.list a ++ [id]) =
      before.edges a (before.list a) ++ if a = parent then [id] else [] := by
  have hold : now.edges a (before.list a) = before.edges a (before.list a) := by
    refine List.filter_congr fun b hb => ?_
    rw [decide_eq_decide, Joined, Joined, h.parent_old a (ne_of_mem_of_not_mem ha hid),
      h.parent_old b (ne_of_mem_of_not_mem (hsound.mem a ha b hb) hid)]
  have hnew : decide (now.Joined a id) = decide (a = parent) := by
    rw [decide_eq_decide]
    exact h.joined_new_iff hsound hid ha
  rw [edges, List.filter_append, ← edges, hold, List.filter_singleton, hnew]
  by_cases hap : a = parent <;> simp [hap]

/-- Every list has kept the tree edges that it had. -/
lemma keeps (h : Attaching before limit selected taken id parent now) {a b : VectorId}
    (ha : a ≠ id) (hb : b ∈ before.list a) (hjoined : before.Joined a b) : b ∈ now.list a := by
  by_cases htaken : a ∈ taken
  · exact (h.takes a htaken).keeps b hb hjoined
  · rw [h.list_old a ha htaken]
    exact hb

/-- **The layer has gained the new node** once all the nodes that it has selected have taken it in
and its parent lists it.

**Proof sketch.** What has been taken in by each selected neighbor is what the layer gains there.
The tree edges of the others are kept by each of the steps. -/
theorem gains (h : Attaching before limit selected selected id parent now)
    (hsound : before.Sound limit members) (hid : id ∉ members) (hnodup : selected.Nodup)
    (hmem : ∀ a ∈ selected, a ∈ members) (hlength : selected.length = min limit members.ncard)
    (hparent : parent ∈ selected) (hlisted : id ∈ now.list parent) :
    before.Gains limit members id now := by
  have hne : ∀ a ∈ members, a ≠ id := fun a ha => ne_of_mem_of_not_mem ha hid
  obtain rfl := h.list_new
  exact {
    nodup := hnodup
    mem := hmem
    length_eq := hlength
    parent_new := ⟨parent, hparent, h.parent_new⟩
    parent_old := h.parent_old
    list_old := h.list_old
    drawn := fun a ha => (h.takes a ha).drawn
    nodup_old := fun a ha => (h.takes a ha).nodup
    length_old := fun a ha => (h.takes a ha).length_eq
    keeps := by
      rintro a ha b hb hjoined
      -- Both ends are old, or the edge is the one to the parent.
      rcases Set.mem_insert_iff.mp ha with rfl | hold
      · rcases Set.mem_insert_iff.mp hb with rfl | hold
        · rcases hjoined with hself | hself <;>
          · rw [h.parent_new, Option.some.injEq] at hself
            exact absurd (hself ▸ hmem parent hparent) hid
        · exact (h.joined_new_iff hsound hid hold).mp hjoined.symm ▸ hparent
      · rcases Set.mem_insert_iff.mp hb with rfl | hold'
        · exact (h.joined_new_iff hsound hid hold).mp hjoined ▸ hlisted
        · rw [Joined, h.parent_old a (hne a hold), h.parent_old b (hne b hold')] at hjoined
          exact h.keeps (hne a hold) (hsound.mem_of_joined hold hold' hjoined) hjoined }

end Attaching

namespace Gains

variable {before after : Links} {id : VectorId}

/-- What a layer has gained depends on the links that the old nodes had. -/
lemma congr (h : before.Gains limit members id after) (hid : id ∉ members) {other : Links}
    (hlist : ∀ a, a ≠ id → other.list a = before.list a)
    (hparent : ∀ a, a ≠ id → other.parent a = before.parent a) :
    other.Gains limit members id after := by
  have hne : ∀ a ∈ after.list id, a ≠ id := fun a ha => ne_of_mem_of_not_mem (h.mem a ha) hid
  exact { h with
    parent_old := fun a ha => (h.parent_old a ha).trans (hparent a ha).symm
    list_old := fun a ha hnot => (h.list_old a ha hnot).trans (hlist a ha).symm
    drawn := fun a ha => by rw [hlist a (hne a ha)]; exact h.drawn a ha
    length_old := fun a ha => by rw [hlist a (hne a ha)]; exact h.length_old a ha }

/-- **A sound layer is sound with the new node on it.**

**Proof sketch.** The tree has grown by one leaf, and the lists hold all its edges. -/
theorem sound (h : before.Gains limit members id after) (hsound : before.Sound limit members)
    (hid : id ∉ members) : after.Sound limit (insert id members) := by
  obtain ⟨parent, hparent, hparent'⟩ := h.parent_new
  have hne : ∀ a ∈ members, a ≠ id := fun a ha => ne_of_mem_of_not_mem ha hid
  -- What holds of the new list, of those that have taken the node in and of the others, holds of
  -- all.
  have hall : ∀ {P : VectorId → List VectorId → Prop}, P id (after.list id) →
      (∀ a ∈ after.list id, P a (after.list a)) → (∀ a ∈ members, P a (before.list a)) →
      ∀ a ∈ insert id members, P a (after.list a) := by
    intro P hnew htaken hold a ha
    rcases Set.mem_insert_iff.mp ha with rfl | ha
    · exact hnew
    · by_cases hin : a ∈ after.list id
      · exact htaken a hin
      · rw [h.list_old a (hne a ha) hin]
        exact hold a ha
  have hparentmem : ∀ a ∈ insert id members, ∀ b, after.parent a = some b → b ∈ members := by
    intro a ha b hb
    rcases Set.mem_insert_iff.mp ha with rfl | ha
    · obtain rfl := Option.some.inj (hparent'.symm.trans hb)
      exact h.mem parent hparent
    · rw [h.parent_old a (hne a ha)] at hb
      exact hsound.parent_mem a ha b hb
  exact {
    length_le := hall (P := fun _ list => list.length ≤ limit)
      (h.length_eq ▸ Nat.min_le_left _ _) (fun a ha => h.length_old a ha ▸ Nat.min_le_left _ _)
      hsound.length_le
    notMem_self := hall (P := fun a list => a ∉ list) (fun hself => hid (h.mem id hself))
      (fun a ha hself => (h.drawn a ha a hself).elim (hne a (h.mem a ha))
        (hsound.notMem_self a (h.mem a ha)))
      hsound.notMem_self
    nodup := hall (P := fun _ list => list.Nodup) h.nodup h.nodup_old hsound.nodup
    mem := hall (P := fun _ list => ∀ b ∈ list, b ∈ insert id members)
      (fun b hb => .inr (h.mem b hb))
      (fun a ha b hb => (h.drawn a ha b hb).imp_right (hsound.mem a (h.mem a ha) b))
      fun a ha b hb => .inr (hsound.mem a ha b hb)
    parent_mem := fun a ha b hb => .inr (hparentmem a ha b hb)
    listed := by
      intro a ha b hb
      have hb' : b ∈ insert id members := .inr (hparentmem a ha b hb)
      exact ⟨h.keeps a ha b hb' (.inl hb), h.keeps b hb' a ha (.inr hb)⟩
    rooted := by
      obtain ⟨root, hroot, hnone, hclimb⟩ := hsound.rooted
      have hold : ∀ a ∈ members, Relation.ReflTransGen after.Climbs a root := by
        intro a ha
        induction hclimb a ha using Relation.ReflTransGen.head_induction_on with
        | refl => exact .refl
        | head hab _ ih =>
          exact .head ((h.parent_old _ (hne _ ha)).trans hab) (ih (hsound.parent_mem _ ha _ hab))
      refine ⟨root, .inr hroot, (h.parent_old root (hne root hroot)).trans hnone, fun a ha => ?_⟩
      rcases Set.mem_insert_iff.mp ha with rfl | ha
      · exact .head hparent' (hold parent (h.mem parent hparent))
      · exact hold a ha }

end Gains

end Links

end Proximity

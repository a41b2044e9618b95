import Mathlib.Data.List.Nodup
import Mathlib.Data.List.Perm.Basic
import Proximity.Proofs.Graph.Diversity

set_option relaxedAutoImplicit false
set_option autoImplicit false

/-!
# What a selection keeps

A selection from candidates with different names keeps every pinned candidate, names no vector
twice, and fills up to its limit as far as there are candidates. It comes in the order of the
candidates, and beside the pinned ones it holds what the rule of diversity keeps.

## Main definitions

* `Proximity.Selection.Selects` — what is true of a selection.
* `Proximity.Selection.Refines` — what a selection takes.

## Main results

* `Proximity.Selection.exists_select` — a selection succeeds, and what it keeps.
* `Proximity.Selection.inOrder_eq_filter` — names in the order of the candidates.
* `Proximity.Selection.exists_refines` — a selection takes what the rule says.
-/

namespace Proximity.Selection

variable {ε : Type} {between : VectorId → VectorId → Except ε Single}
  {distance : VectorId → VectorId → Single} {limit : Nat} {pinned : List VectorId}
  {candidates kept : List Candidate}

/-- **What is true of a selection** of up to `limit` candidates: it consists of candidates, holds
every pinned one, names none twice, and is as long as the limit and the candidates allow. -/
structure Selects (limit : Nat) (pinned : List VectorId) (candidates : List Candidate)
    (selected : List VectorId) : Prop where
  nodup : selected.Nodup
  mem : ∀ id ∈ selected, id ∈ candidates.map Candidate.id
  pinned_mem : ∀ id ∈ candidates.map Candidate.id, id ∈ pinned → id ∈ selected
  length_eq : selected.length =
    max (pinnedIds pinned candidates).length (min limit candidates.length)

/-- Putting a list in the order of some candidates keeps its members. -/
lemma perm_inOrder (candidates : List Candidate) (ids : List VectorId) :
    (inOrder candidates ids).Perm ids :=
  List.mergeSort_perm _ _

/-- The pinned candidates and what fits into the room that they leave are a selection, whatever is
kept of the other candidates.

**Proof sketch.** What is kept, the others and the pinned candidates are together the candidates;
the selection is a part of these that holds all that are pinned. -/
lemma selects_fillRoom (hids : (candidates.map Candidate.id).Nodup)
    (hsub : kept.Sublist (free pinned candidates)) :
    Selects limit pinned candidates (inOrder candidates (pinnedIds pinned candidates ++
      (fillRoom (limit - (pinnedIds pinned candidates).length) (free pinned candidates) kept).map
        Candidate.id)) := by
  set room := limit - (pinnedIds pinned candidates).length with hroom
  have hnodup : (free pinned candidates).Nodup := (List.Nodup.of_map _ hids).filter _
  have hall : (pinnedIds pinned candidates ++ (kept ++ (free pinned candidates).filter
      (· ∉ kept)).map Candidate.id).Perm (candidates.map Candidate.id) :=
    (((perm_append_filter_notMem hsub hnodup).map _).append_left _).trans
      (perm_pinnedIds_append_free pinned candidates)
  have hpart := ((fillRoom_sublist room (free pinned candidates) kept).map Candidate.id).append_left
    (pinnedIds pinned candidates)
  have hp := perm_inOrder candidates (pinnedIds pinned candidates ++
    (fillRoom room (free pinned candidates) kept).map Candidate.id)
  exact {
    nodup := hp.nodup_iff.mpr (hpart.nodup (hall.nodup_iff.mpr hids))
    mem := fun id hid => hall.mem_iff.mp (hpart.mem (hp.mem_iff.mp hid))
    pinned_mem := by
      intro id hid hpin
      refine hp.mem_iff.mpr (List.mem_append_left _ ?_)
      exact List.mem_filter.mpr ⟨hid, List.contains_iff_mem.mpr hpin⟩
    length_eq := by
      have hcount := (perm_pinnedIds_append_free pinned candidates).length_eq
      rw [List.length_append, List.length_map, List.length_map] at hcount
      rw [hp.length_eq, List.length_append, List.length_map, length_fillRoom hsub hnodup]
      omega }

/-- **A selection succeeds** if the distances between the candidates are there. -/
theorem exists_select {candidates : List Candidate}
    (hbetween : ∀ a ∈ candidates.map Candidate.id, ∀ b ∈ candidates.map Candidate.id,
      ∃ d, between a b = .ok d)
    (hids : (candidates.map Candidate.id).Nodup) :
    ∃ selected, select between limit pinned candidates = .ok selected ∧
      Selects limit pinned candidates selected := by
  have : Nonempty Single := ⟨.zero⟩
  choose! distance hdistance using hbetween
  exact ⟨_, select_eq hids hdistance, selects_fillRoom hids (diverse_sublist _ _)⟩

/-! ## The order of a selection -/

/-- **Names in the order of the candidates** are those of the candidates that bear one of them.

**Proof sketch.** Both lists have the same members, each of them once, and both are in the order of
the candidates. A list is determined by its members and such an order. -/
theorem inOrder_eq_filter (hids : (candidates.map Candidate.id).Nodup) {ids : List VectorId}
    (hnodup : ids.Nodup) (hmem : ∀ id ∈ ids, id ∈ candidates.map Candidate.id) :
    inOrder candidates ids = (candidates.map Candidate.id).filter (· ∈ ids) := by
  have hplace : ∀ id, (candidates.findIdx fun c => c.id = id) =
      (candidates.map Candidate.id).idxOf id := fun id => by
    rw [List.idxOf, List.findIdx_map]
    rfl
  have hperm : (inOrder candidates ids).Perm
      ((candidates.map Candidate.id).filter (· ∈ ids)) := by
    refine (perm_inOrder candidates ids).trans ?_
    refine (List.perm_ext_iff_of_nodup hnodup (hids.filter _)).mpr fun id => ?_
    rw [List.mem_filter, decide_eq_true_eq]
    exact ⟨fun hid => ⟨hmem id hid, hid⟩, fun hid => hid.2⟩
  have hsorted : (inOrder candidates ids).Pairwise fun a b =>
      (candidates.map Candidate.id).idxOf a ≤ (candidates.map Candidate.id).idxOf b := by
    simp only [inOrder, hplace]
    refine (List.pairwise_mergeSort ?_ ?_ ids).imp of_decide_eq_true
    · exact fun a b c hab hbc => decide_eq_true
        ((of_decide_eq_true hab).trans (of_decide_eq_true hbc))
    · intro a b
      rw [Bool.or_eq_true, decide_eq_true_eq, decide_eq_true_eq]
      exact Nat.le_total _ _
  have hfiltered : ((candidates.map Candidate.id).filter (· ∈ ids)).Pairwise fun a b =>
      (candidates.map Candidate.id).idxOf a ≤ (candidates.map Candidate.id).idxOf b := by
    refine List.Pairwise.filter _ (List.pairwise_iff_getElem.mpr fun i j hi hj hij => ?_)
    rw [hids.idxOf_getElem, hids.idxOf_getElem]
    exact hij.le
  refine hperm.eq_of_pairwise (fun a b ha _ hab hba => ?_) hsorted hfiltered
  exact (List.idxOf_inj (hmem a ((perm_inOrder candidates ids).mem_iff.mp ha))).mp
    (Nat.le_antisymm hab hba)

/-! ## The rule -/

/-- **What a selection takes**: the pinned candidates, and into the room that they leave what the
rule of diversity keeps and the nearest of the others, all of it in the order of the candidates. -/
structure Refines (distance : VectorId → VectorId → Single) (limit : Nat) (pinned : List VectorId)
    (candidates : List Candidate) (selected : List VectorId) : Prop
    extends Selects limit pinned candidates selected where
  sublist : selected.Sublist (candidates.map Candidate.id)
  existsUnique_diverse : ∃! kept,
    Diverse distance (pinnedIds pinned candidates) (free pinned candidates) kept
  free_perm : ∀ kept, Diverse distance (pinnedIds pinned candidates) (free pinned candidates) kept →
    (selected.filter (· ∉ pinned)).Perm ((fillRoom
      (limit - (pinnedIds pinned candidates).length) (free pinned candidates) kept).map
        Candidate.id)

/-- In a selection the candidates that are not pinned are what fits into the room that is left. -/
lemma filter_pinnedIds_append (hsub : kept.Sublist (free pinned candidates)) (room : Nat) :
    (pinnedIds pinned candidates ++ (fillRoom room (free pinned candidates) kept).map
      Candidate.id).filter (· ∉ pinned) =
        (fillRoom room (free pinned candidates) kept).map Candidate.id := by
  have hpinned : (pinnedIds pinned candidates).filter (· ∉ pinned) = [] := by
    simp [pinnedIds]
  rw [List.filter_append, hpinned, List.nil_append]
  refine List.filter_eq_self.mpr fun id hid => ?_
  obtain ⟨c, hc, rfl⟩ := List.mem_map.mp hid
  exact decide_eq_true (notMem_of_mem_free (mem_of_mem_fillRoom hsub hc))

/-- **A selection takes what the rule says**, from all candidates in ascending order with different
names, for every limit, all pinned names and all distances between the candidates.

**Proof sketch.** The selection is the pinned names and what fills the room that they leave. The
free candidates that are kept are the diverse ones, and the rule determines these. -/
theorem exists_refines (hascending : Candidate.Ascending candidates)
    (hids : (candidates.map Candidate.id).Nodup)
    (hbetween : ∀ a ∈ candidates.map Candidate.id, ∀ b ∈ candidates.map Candidate.id,
      between a b = .ok (distance a b)) (limit : Nat) (pinned : List VectorId) :
    ∃ selected, select between limit pinned candidates = .ok selected ∧
      Refines distance limit pinned candidates selected := by
  have hrule := fun kept => @diverse_iff distance (pinnedIds pinned candidates) _ kept
    (@ascending_free pinned _ hascending)
  set kept := diverse distance (pinnedIds pinned candidates) (free pinned candidates) with hkept
  have hsub : kept.Sublist (free pinned candidates) := diverse_sublist _ _
  have hselects := @selects_fillRoom limit pinned _ _ hids hsub
  set room := limit - (pinnedIds pinned candidates).length with hroom
  have hperm := perm_inOrder candidates (pinnedIds pinned candidates ++
    (fillRoom room (free pinned candidates) kept).map Candidate.id)
  refine ⟨_, select_eq hids hbetween, { hselects with
    sublist := ?_
    existsUnique_diverse := ⟨kept, (hrule kept).mpr rfl, fun other => (hrule other).mp⟩
    free_perm := ?_ }⟩
  · rw [inOrder_eq_filter hids (hperm.nodup_iff.mp hselects.nodup)
      fun id hid => hselects.mem id (hperm.mem_iff.mpr hid)]
    exact List.filter_sublist
  · intro other hother
    have hfree := hperm.filter fun id => decide (id ∉ pinned)
    rw [filter_pinnedIds_append hsub room] at hfree
    rwa [(hrule other).mp hother]

/-- Two vectors are near to each other if both of their names are even or both odd. -/
def byParity (a b : VectorId) : Single :=
  if a.raw % 2 = b.raw % 2 then ⟨0x3f000000⟩ else ⟨0x41200000⟩

/-- Four candidates at the distances one, two, three and four. -/
def fourCandidates : List Candidate :=
  [⟨.one, ⟨4⟩⟩, ⟨⟨0x40000000⟩, ⟨2⟩⟩, ⟨⟨0x40400000⟩, ⟨3⟩⟩, ⟨⟨0x40800000⟩, ⟨1⟩⟩]

/-- The farthest candidate is pinned and keeps the third one out, the first one keeps the second
out, and there is room for one of these two. -/
theorem exists_refines_four :
    Candidate.Ascending fourCandidates ∧ (fourCandidates.map Candidate.id).Nodup ∧
      ∃ selected, select (fun a b => (.ok (byParity a b) : Except IndexError Single)) 3 [⟨1⟩]
        fourCandidates = .ok selected ∧ Refines byParity 3 [⟨1⟩] fourCandidates selected ∧
          selected = [⟨4⟩, ⟨2⟩, ⟨1⟩] := by
  have hascending : Candidate.Ascending fourCandidates := by
    rw [Candidate.Ascending]
    decide
  have hids : (fourCandidates.map Candidate.id).Nodup := by decide
  have hthree : select (fun a b => (.ok (byParity a b) : Except IndexError Single)) 3 [⟨1⟩]
      fourCandidates = .ok [⟨4⟩, ⟨2⟩, ⟨1⟩] := by
    rw [select_eq hids fun _ _ _ _ => rfl, inOrder_eq_filter hids (by decide) (by decide)]
    decide
  obtain ⟨selected, hselect, hrefines⟩ :=
    exists_refines hascending hids (fun _ _ _ _ => rfl) 3 [⟨1⟩]
  exact ⟨hascending, hids, selected, hselect, hrefines,
    Except.ok.inj (hselect.symm.trans hthree)⟩

end Proximity.Selection

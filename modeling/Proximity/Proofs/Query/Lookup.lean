import Mathlib.Data.List.MinMax
import Proximity.Proofs.Query.Leaves
import Proximity.Proofs.Single.Order

set_option relaxedAutoImplicit false
set_option autoImplicit false

/-!
# Looking up documents

A leaf of a query keeps one entry for each document, in ascending order, and finds it by halving the
list. The entry comes from a sort by number and then by score or distance, after which only the
first entry of each run of one number is left. So what the leaf says of a document is the best that
it has been given for the document, wherever that came in.

## Main definitions

* `Proximity.supplied` — what some entries say of a document.
* `Proximity.greatest`, `Proximity.least` — the greatest and the least in the total order.
* `Proximity.weigh` — the score of what has been found.

## Main results

* `Proximity.bisect_eq_lookup` — halving an ascending list finds the entry of a document.
* `Proximity.lookup_perm_eq_argmax` — the first entry of a document in a sorted list is the best.
* `Proximity.Posting.bisect_ofScored` — a posting list keeps the greatest score.
* `Proximity.bisect_collapse_mergeSort` — a vector clause keeps the least distance.
-/

namespace Proximity

/-- What some entries say of a document. -/
def supplied (entries : List Scored) (id : UInt64) : List Single :=
  (entries.filter fun entry => entry.1 = id).map Prod.snd

/-- The greatest of some numbers in the total order of patterns. -/
def greatest (values : List Single) : Option Single :=
  @List.argmax _ _ Int.instLinearOrder.toPreorder _ Single.rank values

/-- The least of some numbers in the total order of patterns. -/
def least (values : List Single) : Option Single :=
  @List.argmin _ _ Int.instLinearOrder.toPreorder _ Single.rank values

/-- The score of what has been found of a document, times a factor, or zero if nothing has. -/
def weigh (score : Single → Single) (factor : Single) : Option Single → Single
  | some found => score found * factor
  | none => .zero

variable {list entries : List Scored} {id : UInt64} {value other : Single}

/-- The values that are supplied for a document are those in its entries. -/
lemma mem_supplied_iff : value ∈ supplied entries id ↔ (id, value) ∈ entries := by
  simp only [supplied, List.mem_map, List.mem_filter, decide_eq_true_eq]
  constructor
  · rintro ⟨⟨_, _⟩, ⟨hentry, rfl⟩, rfl⟩
    exact hentry
  · intro hentry
    exact ⟨(id, value), ⟨hentry, rfl⟩, rfl⟩

/-! ## The first entry of a document -/

/-- The value of a document is in the first of its entries. -/
lemma lookup_cons (entry : Scored) (list : List Scored) (id : UInt64) :
    lookup (entry :: list) id = if entry.1 = id then some entry.2 else lookup list id := by
  rw [lookup, List.find?_cons]
  split
  · next h => rw [if_pos (of_decide_eq_true h), Option.map_some]
  · next h => rw [if_neg (of_decide_eq_false h), lookup]

/-- The first entry of a document is in the first or in the second part of a list. -/
lemma lookup_take_drop (n : Nat) (list : List Scored) (id : UInt64) :
    (lookup (list.take n) id).or (lookup (list.drop n) id) = lookup list id := by
  rw [lookup, lookup, ← Option.map_or, ← List.find?_append, List.take_append_drop, lookup]

/-- A document without a value has no entry. -/
lemma lookup_eq_none_iff : lookup list id = none ↔ ∀ entry ∈ list, entry.1 ≠ id := by
  rw [lookup, Option.map_eq_none_iff, List.find?_eq_none]
  simp only [decide_eq_true_eq, ne_eq]

/-- A value that is found is in an entry. -/
lemma mem_of_lookup (h : lookup list id = some value) : (id, value) ∈ list := by
  obtain ⟨⟨number, _⟩, hfound, rfl⟩ := Option.map_eq_some_iff.mp h
  obtain rfl : number = id := by simpa using List.find?_some hfound
  exact List.mem_of_find?_eq_some hfound

/-- In a list in which each document comes once, its entry is the first one. -/
lemma lookup_eq_some_iff (h : (list.map Prod.fst).Nodup) :
    lookup list id = some value ↔ (id, value) ∈ list := by
  refine ⟨mem_of_lookup, fun hmem => ?_⟩
  induction list with
  | nil => exact absurd hmem List.not_mem_nil
  | cons entry list ih =>
    rw [List.map_cons, List.nodup_cons] at h
    rw [lookup_cons]
    rcases List.mem_cons.mp hmem with rfl | hrest
    · exact if_pos rfl
    · have hne : entry.1 ≠ id := fun heq => h.1 (heq ▸ List.mem_map_of_mem hrest)
      rw [if_neg hne, ih h.2 hrest]

/-- What lies below and above an entry of an ascending list. -/
lemma below_and_above_of_drop {n : Nat} {middle : Scored} {above : List Scored}
    (h : (list.map Prod.fst).Pairwise (· < ·)) (hdrop : list.drop n = middle :: above) :
    ((list.take n).map Prod.fst).Pairwise (· < ·) ∧ (above.map Prod.fst).Pairwise (· < ·) ∧
      (∀ entry ∈ list.take n, entry.1 < middle.1) ∧ ∀ entry ∈ above, middle.1 < entry.1 := by
  rw [← List.take_append_drop n list, hdrop, List.map_append, List.map_cons] at h
  obtain ⟨hbelow, habove, hless⟩ := List.pairwise_append.mp h
  obtain ⟨hmiddle, habove⟩ := List.pairwise_cons.mp habove
  exact ⟨hbelow, habove,
    fun entry hentry => hless _ (List.mem_map_of_mem hentry) _ (List.mem_cons_self ..),
    fun entry hentry => hmiddle _ (List.mem_map_of_mem hentry)⟩

/-- **Halving an ascending list** finds the entry of a document.

**Proof sketch.** Induction along the halving. In an ascending list the document can only be in the
half that the middle tells. -/
theorem bisect_eq_lookup (h : (list.map Prod.fst).Pairwise (· < ·)) :
    bisect list id = lookup list id := by
  fun_induction bisect list id with
  | case1 list hdrop =>
    -- Only an empty list has no middle.
    have hlength := congrArg List.length hdrop
    rw [List.length_drop, List.length_nil] at hlength
    rw [List.length_eq_zero_iff.mp (show list.length = 0 by omega)]
    rfl
  | case2 list middle above hdrop heq =>
    obtain ⟨-, -, hbelow, -⟩ := below_and_above_of_drop h hdrop
    have hnone : lookup (list.take (list.length / 2)) id = none :=
      lookup_eq_none_iff.mpr fun entry hentry => heq ▸ UInt64.ne_of_lt (hbelow entry hentry)
    rw [← lookup_take_drop (list.length / 2) list, hnone, Option.none_or, hdrop, lookup_cons,
      if_pos heq]
  | case3 list middle above hdrop hne hlt ih =>
    obtain ⟨-, habove, hbelow, -⟩ := below_and_above_of_drop h hdrop
    have hnone : lookup (list.take (list.length / 2)) id = none :=
      lookup_eq_none_iff.mpr fun entry hentry =>
        UInt64.ne_of_lt (UInt64.lt_trans (hbelow entry hentry) hlt)
    rw [ih habove, ← lookup_take_drop (list.length / 2) list, hnone, Option.none_or, hdrop,
      lookup_cons, if_neg hne]
  | case4 list middle above hdrop hne hnot ih =>
    obtain ⟨hsorted, -, -, habove⟩ := below_and_above_of_drop h hdrop
    have hlt : id < middle.1 := UInt64.lt_of_le_of_ne (UInt64.not_lt.mp hnot) (Ne.symm hne)
    have hnone : lookup above id = none :=
      lookup_eq_none_iff.mpr fun entry hentry =>
        (UInt64.ne_of_lt (UInt64.lt_trans hlt (habove entry hentry))).symm
    rw [ih hsorted, ← lookup_take_drop (list.length / 2) list, hdrop, lookup_cons, if_neg hne,
      hnone, Option.or_none]

/-! ## The best entry of a document -/

/-- In a list in which the entries of one document come best first, the first one is the best.

**Proof sketch.** Induction on the list. The first entry of the document is no worse than all behind
it. -/
lemma key_le_of_lookup {β : Type} [LinearOrder β] {key : Single → β}
    (h : list.Pairwise fun a b => a.1 = b.1 → key b.2 ≤ key a.2)
    (hvalue : lookup list id = some value) (hother : (id, other) ∈ list) :
    key other ≤ key value := by
  induction list with
  | nil => exact absurd hother List.not_mem_nil
  | cons entry list ih =>
    obtain ⟨hhead, htail⟩ := List.pairwise_cons.mp h
    rw [lookup_cons] at hvalue
    split at hvalue
    · next heq =>
      obtain rfl := Option.some.inj hvalue
      rcases List.mem_cons.mp hother with rfl | hrest
      · exact le_rfl
      · exact hhead _ hrest heq
    · next hne =>
      rcases List.mem_cons.mp hother with rfl | hrest
      · exact absurd rfl hne
      · exact ih htail hvalue hrest

/-- **The first entry of a document in a sorted list** is the best of all that the list was sorted
from.

**Proof sketch.** If there is an entry, the first is no worse than the best of all, and no two
entries of a document have the same place. -/
theorem lookup_perm_eq_argmax {β : Type} [LinearOrder β] {key : Single → β}
    (hkey : Function.Injective key) (hperm : list.Perm entries)
    (hsorted : list.Pairwise fun a b => a.1 = b.1 → key b.2 ≤ key a.2) (id : UInt64) :
    lookup list id = (supplied entries id).argmax key := by
  cases hlookup : lookup list id with
  | none =>
    rw [lookup_eq_none_iff] at hlookup
    have hnil : supplied entries id = [] :=
      List.eq_nil_iff_forall_not_mem.mpr fun value hvalue =>
        hlookup _ (hperm.mem_iff.mpr (mem_supplied_iff.mp hvalue)) rfl
    rw [hnil, List.argmax_nil]
  | some value =>
    have hmem : value ∈ supplied entries id :=
      mem_supplied_iff.mpr (hperm.mem_iff.mp (mem_of_lookup hlookup))
    have hsome : (supplied entries id).argmax key ≠ none :=
      mt List.argmax_eq_none.mp (List.ne_nil_of_mem hmem)
    obtain ⟨best, hbest⟩ := Option.ne_none_iff_exists'.mp hsome
    -- The first one is no worse than the best one, and no two have the same place.
    have hle := key_le_of_lookup hsorted hlookup
      (hperm.mem_iff.mpr (mem_supplied_iff.mp (List.argmax_mem hbest)))
    rw [hbest, hkey (le_antisymm (List.le_of_mem_argmax hmem hbest) hle)]

/-- The same, where the entries of one document come in ascending order. -/
lemma lookup_perm_eq_least (hperm : list.Perm entries)
    (hsorted : list.Pairwise fun a b => a.1 = b.1 → a.2.rank ≤ b.2.rank) (id : UInt64) :
    lookup list id = least (supplied entries id) :=
  lookup_perm_eq_argmax
    (OrderDual.toDual.injective.comp Single.rank_injective :
      Function.Injective (OrderDual.toDual ∘ Single.rank)) hperm hsorted id

/-! ## What is left of each run -/

/-- An entry that is left out stands behind one of the same document. -/
lemma Posting.lookup_dropRepeats (list : List Scored) (id : UInt64) :
    lookup (dropRepeats list) id = lookup list id := by
  fun_induction dropRepeats list with
  | case1 => rfl
  | case2 entry => rfl
  | case3 entry next rest heq ih =>
    rw [ih, lookup_cons, lookup_cons, lookup_cons, heq]
    split_ifs <;> rfl
  | case4 entry next rest _ ih => rw [lookup_cons, ih, ← lookup_cons]

/-- After the sort of a posting list, the first entry of a document has the greatest score. -/
lemma Posting.lookup_mergeSort {others : List Scored} (hperm : entries.Perm others)
    (id : UInt64) : lookup (entries.mergeSort notAfter) id = greatest (supplied others id) := by
  refine lookup_perm_eq_argmax Single.rank_injective
    ((List.mergeSort_perm entries notAfter).trans hperm) ?_ id
  refine (@pairwise_mergeSort_by notAfter (fun a => -a.2.rank) ?_ entries).imp ?_
  · intro a b
    simp [notAfter]
  · rintro a b (hlt | ⟨_, hle⟩) heq
    · exact absurd heq (UInt64.ne_of_lt hlt)
    · omega

/-- **A posting list keeps the greatest score** of each document. -/
theorem Posting.bisect_ofScored (entries : List Scored) (id : UInt64) :
    bisect (ofScored entries).entries id = greatest (supplied entries id) := by
  rw [bisect_eq_lookup (pairwise_ids_ofScored entries), ofScored, lookup_dropRepeats,
    lookup_mergeSort (.refl entries)]

/-- A posting list scores a document by the greatest score that it has been given. -/
lemma Posting.score_ofScored (entries : List Scored) (factor : Single) (id : UInt64) :
    (ofScored entries).score factor id =
      weigh (fun score => score) factor (greatest (supplied entries id)) :=
  congrArg (weigh (fun score => score) factor) (bisect_ofScored entries id)

/-- The order of the entries does not matter to the greatest score. -/
lemma greatest_supplied_perm {others : List Scored} (hperm : entries.Perm others) (id : UInt64) :
    greatest (supplied entries id) = greatest (supplied others id) :=
  (Posting.lookup_mergeSort (.refl entries) id).symm.trans (Posting.lookup_mergeSort hperm id)

/-- An entry that is not less than the one before it in its run changes nothing. -/
lemma lookup_collapseFrom {last : Scored}
    (h : (last :: list).Pairwise fun a b => a.1 = b.1 → a.2.rank ≤ b.2.rank) (id : UInt64) :
    lookup (collapseFrom last list) id = lookup (last :: list) id := by
  induction list generalizing last with
  | nil => rfl
  | cons entry list ih =>
    obtain ⟨hhead, htail⟩ := List.pairwise_cons.mp h
    rw [collapseFrom]
    split_ifs with heq hlt
    · exact absurd (Single.rank_lt_of_lt hlt)
        (not_lt.mpr (hhead entry (List.mem_cons_self ..) heq.symm))
    · rw [ih (h.sublist (List.Sublist.cons_cons last (List.sublist_cons_self entry list))),
        lookup_cons, lookup_cons, lookup_cons, heq]
      split_ifs <;> rfl
    · rw [lookup_cons, ih htail, lookup_cons last]

/-- Collapsing keeps the value of each document, if the least one comes first in each run. -/
lemma lookup_collapse (h : list.Pairwise fun a b => a.1 = b.1 → a.2.rank ≤ b.2.rank)
    (id : UInt64) : lookup (collapse list) id = lookup list id := by
  cases list with
  | nil => rfl
  | cons entry list => exact lookup_collapseFrom h id

/-- **A vector clause keeps the least distance** of each document.

**Proof sketch.** Sorting puts the least distance of each document first, and collapsing keeps the
first one. -/
theorem bisect_collapse_mergeSort (entries : List Scored) (id : UInt64) :
    bisect (collapse (entries.mergeSort VectorClause.notAfter)) id =
      least (supplied entries id) := by
  have hle : ∀ a b, VectorClause.notAfter a b = true ↔
      a.1 < b.1 ∨ a.1 = b.1 ∧ a.2.rank ≤ b.2.rank := fun a b => by simp [VectorClause.notAfter]
  have hruns : (entries.mergeSort VectorClause.notAfter).Pairwise fun a b =>
      a.1 = b.1 → a.2.rank ≤ b.2.rank :=
    (@pairwise_mergeSort_by _ (fun a => a.2.rank) hle entries).imp fun {a b} hab heq =>
      hab.elim (fun hlt => absurd heq (UInt64.ne_of_lt hlt)) And.right
  have hascending : (entries.mergeSort VectorClause.notAfter).Pairwise fun a b => a.1 ≤ b.1 :=
    @pairwise_mergeSort_of _ (fun a => a.2.rank) hle entries
  rw [bisect_eq_lookup (pairwise_collapse hascending), lookup_collapse hruns]
  exact lookup_perm_eq_least (List.mergeSort_perm entries VectorClause.notAfter) hruns id

end Proximity

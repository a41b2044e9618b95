import Proximity.Proofs.Store.View

set_option relaxedAutoImplicit false
set_option autoImplicit false

/-!
# Scans and look-ups

A scan asks for all keys that start with a stem. A snapshot walks along its ordered keys, from the
stem on and no further than to the first key that does not start with it. A write transaction walks
along the keys of its snapshot and along those that it has touched, and merges what it finds: a
value that it has set replaces the one of the snapshot or comes in between, and a key that it has
removed falls out. Either finds exactly the keys with the stem under which a look-up finds a value.

## Main definitions

* `Proximity.Lists` — the entries that look-ups give for a stem, in byte order.

## Main results

* `Proximity.Lists.unique` — look-ups decide what a scan finds.
* `Proximity.WriteTransaction.getElem?_merged` — what the merged map holds under a key.
* `Proximity.WriteTransaction.scan_view` — the view of a write transaction finds what the
  transaction finds.
* `Proximity.scans_agree_with_lookups` — scans agree with look-ups.
-/

namespace Proximity

/-! ## What look-ups give for a stem -/

/-- **Some entries are those that look-ups give for a stem**: every key that starts with the stem
and has a value, with this value, each key once, in strictly ascending byte order. -/
structure Lists (get? : Bytes → Option Bytes) (stem : Bytes) (entries : List (Bytes × Bytes)) :
    Prop where
  mem_iff : ∀ key value, (key, value) ∈ entries ↔ stem <+: key ∧ get? key = some value
  ascending : (entries.map Prod.fst).Pairwise (· < ·)

/-- **Look-ups decide what a scan finds.** -/
theorem Lists.unique {get? : Bytes → Option Bytes} {stem : Bytes}
    {entries entries' : List (Bytes × Bytes)} (h : Lists get? stem entries)
    (h' : Lists get? stem entries') : entries = entries' := by
  have hsorted : ∀ {list : List (Bytes × Bytes)}, Lists get? stem list →
      list.Pairwise fun a b => compare a.1 b.1 = .lt := fun hlist =>
    (List.pairwise_map.mp hlist.ascending).imp Bytes.compare_eq_lt_iff.mpr
  refine eq_of_ascending_of_mem_iff (hsorted h) (hsorted h') ?_
  rintro ⟨key, value⟩
  rw [h.mem_iff, h'.mem_iff]

/-- A snapshot finds what its look-ups give. -/
lemma Snapshot.lists_scan (snapshot : Snapshot) (stem : Bytes) :
    Lists snapshot.get? stem (snapshot.scan stem) where
  mem_iff key value := by rw [mem_scan_iff, Bytes.startsWith_iff_prefix, and_comm]
  ascending := List.pairwise_map.mpr
    ((snapshot.pairwise_scan stem).imp Bytes.compare_eq_lt_iff.mp)

/-! ## Merging the changes of a write transaction -/

namespace WriteTransaction

variable (txn : WriteTransaction) (stem : Bytes)

/-- The entries that the snapshot finds, with the changes of such keys merged into them. -/
def merged : Entries :=
  (bindingsUnder txn.edits stem).foldl (fun merged edit => applyEdit merged edit.1 edit.2)
    (.ofList (txn.base.scan stem))

/-- What the snapshot finds, as a map.

**Proof sketch.** The scan lists each key with the stem once, with its value. -/
lemma getElem?_ofList_scan (key : Bytes) :
    (Std.TreeMap.ofList (txn.base.scan stem) compare)[key]? =
      if stem <+: key then txn.base.get? key else none := by
  have hlists := txn.base.lists_scan stem
  by_cases hfound : ∃ value, (key, value) ∈ txn.base.scan stem
  · obtain ⟨value, hvalue⟩ := hfound
    obtain ⟨hstem, hget⟩ := (hlists.mem_iff key value).mp hvalue
    rw [if_pos hstem, hget]
    refine Std.TreeMap.getElem?_ofList_of_mem Std.ReflOrd.compare_self ?_ hvalue
    refine (txn.base.pairwise_scan stem).imp fun {a b} hlt heq => ?_
    rw [hlt] at heq
    cases heq
  · have hcontains : ((txn.base.scan stem).map Prod.fst).contains key = false := by
      rw [← Bool.not_eq_true, List.contains_iff_mem]
      intro hmem
      obtain ⟨⟨_, value⟩, hvalue, rfl⟩ := List.mem_map.mp hmem
      exact hfound ⟨value, hvalue⟩
    rw [Std.TreeMap.getElem?_ofList_of_contains_eq_false hcontains]
    split
    · next hstem =>
      refine (Option.eq_none_iff_forall_ne_some.mpr fun value hget => ?_).symm
      exact hfound ⟨value, (hlists.mem_iff key value).mpr ⟨hstem, hget⟩⟩
    · rfl

/-- **The merged map** holds what the transaction answers, under the keys with the stem.

**Proof sketch.** If the transaction has touched the key there is one edit of it, which overwrites
what the snapshot found. Otherwise what the snapshot found is left. -/
theorem getElem?_merged (key : Bytes) :
    (txn.merged stem)[key]? = if stem <+: key then txn.get? key else none := by
  have hset : ∀ (entries : Entries) (edit : Bytes × Option Bytes),
      (applyEdit entries edit.1 edit.2)[key]? =
        if some edit.1 = some key then edit.2 else entries[key]? := by
    intro entries edit
    rw [getElem?_applyEdit]
    simp only [Option.some.injEq]
  rw [merged, WriteTransaction.get?]
  by_cases hfound : ∃ edit, (key, edit) ∈ bindingsUnder txn.edits stem
  · -- The transaction has touched the key, and there is one edit of it.
    obtain ⟨edit, hedit⟩ := hfound
    obtain ⟨hedits, hstarts⟩ := mem_bindingsUnder_iff.mp hedit
    rw [Bytes.startsWith_iff_prefix] at hstarts
    rw [if_pos hstarts, hedits]
    refine @foldl_look_of_mem Entries (Option Bytes) _ Bytes _ _ (fun entries k => entries[k]?)
      (fun edit => some edit.1) Prod.snd key hset (key, edit) rfl _ _ hedit
      fun other hother hkey => ?_
    obtain rfl := Option.some.inj hkey
    have hsame := (mem_bindingsUnder_iff.mp hother).1
    rw [hedits] at hsame
    rw [Option.some.inj hsame]
  · have hleft := @foldl_look_of_forall_ne Entries (Option Bytes) _ Bytes _ _
      (fun entries k => entries[k]?) (fun edit => some edit.1) Prod.snd key hset
      (bindingsUnder txn.edits stem) (.ofList (txn.base.scan stem)) fun other hother hkey =>
        hfound ⟨other.2, Option.some.inj hkey ▸ hother⟩
    refine hleft.trans ((txn.getElem?_ofList_scan stem key).trans ?_)
    split
    · next hstem =>
      have hnone : txn.edits[key]? = none := by
        refine Option.eq_none_iff_forall_ne_some.mpr fun edit hedit => ?_
        exact hfound ⟨edit, mem_bindingsUnder_iff.mpr
          ⟨hedit, Bytes.startsWith_iff_prefix.mpr hstem⟩⟩
      rw [hnone]
    · rfl

/-- A write transaction finds what its look-ups give. -/
lemma lists_scan : Lists txn.get? stem (txn.scan stem) where
  mem_iff key value := by
    rw [show txn.scan stem = (txn.merged stem).toList from rfl,
      Std.TreeMap.mem_toList_iff_getElem?_eq_some, getElem?_merged]
    split
    · next hstem => simp [hstem]
    · next hstem => simp [hstem]
  ascending := List.pairwise_map.mpr
    (Std.TreeMap.ordered_keys_toList.imp Bytes.compare_eq_lt_iff.mp)

/-- **The view of a write transaction** finds what the transaction finds. -/
theorem scan_view : txn.view.scan stem = txn.scan stem := by
  have hview := txn.view.lists_scan stem
  rw [show txn.view.get? = txn.get? from funext txn.get?_view] at hview
  exact hview.unique (txn.lists_scan stem)

end WriteTransaction

/-- **Scans agree with look-ups.** For any stem, every snapshot and every write transaction finds
exactly the keys that start with the stem and have a value in a look-up, each once and with this
value, in strictly ascending byte order.

**Proof sketch.** Keys that start alike are neighbors in byte order, so a walk that begins at the
stem and stops at the first other key misses none of them. In a write transaction the two walks find
the entries of the snapshot and the edits for these keys, and each edit decides about one key. -/
theorem scans_agree_with_lookups (stem : Bytes) :
    (∀ snapshot : Snapshot,
      (∀ key value, (key, value) ∈ snapshot.scan stem ↔
        stem <+: key ∧ snapshot.get? key = some value) ∧
      ((snapshot.scan stem).map Prod.fst).Pairwise (· < ·)) ∧
    ∀ txn : WriteTransaction,
      (∀ key value, (key, value) ∈ txn.scan stem ↔ stem <+: key ∧ txn.get? key = some value) ∧
      ((txn.scan stem).map Prod.fst).Pairwise (· < ·) :=
  ⟨fun snapshot => ⟨(snapshot.lists_scan stem).mem_iff, (snapshot.lists_scan stem).ascending⟩,
    fun txn => ⟨(txn.lists_scan stem).mem_iff, (txn.lists_scan stem).ascending⟩⟩

end Proximity

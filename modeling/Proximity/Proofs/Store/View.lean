import Mathlib.Tactic.SplitIfs
import Proximity.Store
import Proximity.Proofs.Keys

set_option relaxedAutoImplicit false
set_option autoImplicit false

/-!
# What a transaction sees

A write transaction is read through its view, one snapshot in which its changes are laid over the
snapshot that it started from. Every look-up in the view answers what the transaction answers, and
each change of the transaction changes one look-up. A scan finds the keys with a stem, in byte
order: the walk along the keys ends at the first one without the stem and still misses none.

## Main results

* `Proximity.WriteTransaction.get?_view`, `Proximity.WriteTransaction.run_view` — the view answers
  what the transaction answers.
* `Proximity.WriteTransaction.get?_view_put`, `Proximity.WriteTransaction.exists_writeRun`,
  `Proximity.WriteTransaction.exists_allocate` — what a change does to the view.
* `Proximity.WriteTransaction.exists_allocate_extends`,
  `Proximity.WriteTransaction.extends_of_allocate`, `Proximity.WriteTransaction.grows_of_allocate` —
  what is handed out is new, and it is not much.
* `Proximity.bindingsUnder_eq_filter` — the walk along the keys that start alike misses none.
* `Proximity.Snapshot.mem_scan_iff`, `Proximity.Snapshot.pairwise_scan` — what a scan finds.
-/

namespace Proximity

/-! ## Folds that overwrite -/

section Overwrite

variable {γ δ ε κ : Type} [DecidableEq κ]

/-- A fold over entries that say nothing about a key leaves what is found under the key. -/
lemma foldl_look_of_forall_ne {f : γ → ε → γ} {look : γ → κ → δ} (key : ε → Option κ)
    (value : ε → δ) {k : κ}
    (hset : ∀ c e, look (f c e) k = if key e = some k then value e else look c k)
    {entries : List ε} :
    ∀ {c : γ}, (∀ e ∈ entries, key e ≠ some k) → look (entries.foldl f c) k = look c k := by
  induction entries with
  | nil => exact fun _ => rfl
  | cons e entries ih =>
    intro c h
    rw [List.foldl_cons, ih fun e' he' => h e' (by simp [he']), hset, if_neg (h e (by simp))]

/-- A fold over entries of which exactly one is about a key finds the value of that entry. -/
lemma foldl_look_of_mem {f : γ → ε → γ} {look : γ → κ → δ} (key : ε → Option κ)
    (value : ε → δ) {k : κ}
    (hset : ∀ c e, look (f c e) k = if key e = some k then value e else look c k) {e : ε}
    (hkey : key e = some k) {entries : List ε} :
    ∀ {c : γ}, e ∈ entries → (∀ e' ∈ entries, key e' = some k → e' = e) →
      look (entries.foldl f c) k = value e := by
  induction entries with
  | nil => exact fun h => absurd h (List.not_mem_nil)
  | cons first entries ih =>
    intro c hmem honly
    have hrest : ∀ e' ∈ entries, key e' = some k → e' = e := fun e' he' => honly e' (by simp [he'])
    rw [List.foldl_cons]
    by_cases hin : e ∈ entries
    · exact ih hin hrest
    · obtain rfl : e = first := (List.mem_cons.mp hmem).resolve_right hin
      rw [foldl_look_of_forall_ne key value hset fun e' he' hk => hin (hrest e' he' hk ▸ he'), hset,
        if_pos hkey]

/-- A fold over a tree map that overwrites finds what the map holds, or else what was there.

**Proof sketch.** The fold goes over the list of the entries, in which each key comes once. -/
lemma foldl_look_treeMap {β : Type} [Ord κ] [Std.TransOrd κ] [Std.LawfulEqOrd κ]
    {f : γ → κ → β → γ} (look : γ → κ → δ) {value : β → δ}
    (hset : ∀ c k v k', look (f c k v) k' = if k = k' then value v else look c k')
    (map : Std.TreeMap κ β compare) (c : γ) (k : κ) :
    look (map.foldl f c) k = match map[k]? with
      | some v => value v
      | none => look c k := by
  have hstep : ∀ (c : γ) (e : κ × β),
      look (f c e.1 e.2) k = if some e.1 = some k then value e.2 else look c k := by
    intro c e
    rw [hset]
    simp only [Option.some.injEq]
  rw [Std.TreeMap.foldl_eq_foldl_toList]
  cases hk : map[k]? with
  | none =>
    refine foldl_look_of_forall_ne (fun e => some e.1) (fun e => value e.2) hstep fun e he hek => ?_
    obtain rfl := Option.some.inj hek
    rw [Std.TreeMap.mem_toList_iff_getElem?_eq_some.mp he] at hk
    exact Option.some_ne_none _ hk
  | some v =>
    refine foldl_look_of_mem (fun e => some e.1) (fun e => value e.2) hstep
      (rfl : some (k, v).1 = some k) (Std.TreeMap.mem_toList_iff_getElem?_eq_some.mpr hk)
      fun e he hek => ?_
    obtain rfl := Option.some.inj hek
    have hv := Std.TreeMap.mem_toList_iff_getElem?_eq_some.mp he
    rw [hk] at hv
    rw [Option.some.inj hv]

end Overwrite

/-! ## Scans -/

section Walk

variable {β : Type} {stem : Bytes}

/-- Among keys that do not come before a stem, the first one that does not start with it ends those
that do. -/
lemma takeWhile_startsWith {list : List (Bytes × β)}
    (hsorted : list.Pairwise fun a b => a.1 < b.1) (hstem : ∀ entry ∈ list, ¬ entry.1 < stem) :
    (list.takeWhile fun entry => entry.1.startsWith stem) =
      list.filter fun entry => entry.1.startsWith stem := by
  induction list with
  | nil => rfl
  | cons entry list ih =>
    obtain ⟨hhead, htail⟩ := List.pairwise_cons.mp hsorted
    obtain ⟨hentry, hlist⟩ := List.forall_mem_cons.mp hstem
    rw [List.takeWhile_cons, List.filter_cons]
    split
    · rw [ih htail hlist]
    · next hstarts =>
      rw [Bytes.startsWith_iff_prefix] at hstarts
      refine (List.filter_eq_nil_iff.mpr fun other hother => ?_).symm
      rw [Bytes.startsWith_iff_prefix]
      exact Bytes.not_prefix_of_lt hentry hstarts (hhead other hother)

/-- **The walk along the keys that start alike** misses none of them.

**Proof sketch.** Induction on the ascending list. Keys with the stem come together, behind those
that are smaller. -/
theorem bindingsUnder_eq_filter (map : Std.TreeMap Bytes β compare) (stem : Bytes) :
    bindingsUnder map stem = map.toList.filter fun entry => entry.1.startsWith stem := by
  have hsorted : map.toList.Pairwise fun a b => a.1 < b.1 :=
    Std.TreeMap.ordered_keys_toList.imp Bytes.compare_eq_lt_iff.mp
  rw [bindingsUnder]
  generalize map.toList = list at hsorted
  induction list with
  | nil => rfl
  | cons entry list ih =>
    obtain ⟨hhead, htail⟩ := List.pairwise_cons.mp hsorted
    rw [List.dropWhile_cons]
    split
    · next hlt =>
      rw [Ordering.isLT_iff_eq_lt, Bytes.compare_eq_lt_iff] at hlt
      rw [ih htail, List.filter_cons_of_neg]
      rw [Bytes.startsWith_iff_prefix]
      exact fun hstarts => Bytes.not_lt_of_prefix hstarts hlt
    · next hnot =>
      rw [Ordering.isLT_iff_eq_lt, Bytes.compare_eq_lt_iff] at hnot
      refine takeWhile_startsWith hsorted (List.forall_mem_cons.mpr ⟨hnot, fun other hother => ?_⟩)
      exact fun hlt => hnot (List.lt_trans (hhead other hother) hlt)

/-- The bindings under a stem are those whose keys begin with it. -/
lemma mem_bindingsUnder_iff {map : Std.TreeMap Bytes β compare} {key : Bytes} {value : β} :
    (key, value) ∈ bindingsUnder map stem ↔
      map[key]? = some value ∧ key.startsWith stem = true := by
  rw [bindingsUnder_eq_filter, List.mem_filter, Std.TreeMap.mem_toList_iff_getElem?_eq_some]

/-- The bindings under a stem come in the order of their keys. -/
lemma pairwise_bindingsUnder (map : Std.TreeMap Bytes β compare) (stem : Bytes) :
    (bindingsUnder map stem).Pairwise fun a b => compare a.1 b.1 = .lt := by
  rw [bindingsUnder_eq_filter]
  exact Std.TreeMap.ordered_keys_toList.sublist List.filter_sublist

end Walk

/-- A scan finds the entries whose keys begin with the stem. -/
lemma Entries.mem_scan_iff {entries : Entries} {stem key value : Bytes} :
    (key, value) ∈ entries.scan stem ↔ entries[key]? = some value ∧ key.startsWith stem = true :=
  mem_bindingsUnder_iff

/-- A scan finds the keys with the stem, each with its value. -/
theorem Snapshot.mem_scan_iff {view : Snapshot} {stem key value : Bytes} :
    (key, value) ∈ view.scan stem ↔ view.get? key = some value ∧ key.startsWith stem = true :=
  Entries.mem_scan_iff

/-- A scan is in byte order. -/
theorem Snapshot.pairwise_scan (view : Snapshot) (stem : Bytes) :
    (view.scan stem).Pairwise fun a b => compare a.1 b.1 = .lt :=
  pairwise_bindingsUnder view.entries stem

/-- Lists of entries in byte order with the same members are equal. -/
lemma eq_of_ascending_of_mem_iff {entries entries' : List (Bytes × Bytes)}
    (hsorted : entries.Pairwise fun a b => compare a.1 b.1 = .lt)
    (hsorted' : entries'.Pairwise fun a b => compare a.1 b.1 = .lt)
    (hmem : ∀ entry, entry ∈ entries ↔ entry ∈ entries') : entries = entries' := by
  have hasymm : ∀ a b : Bytes × Bytes, compare a.1 b.1 = .lt → compare b.1 a.1 = .lt → a = b := by
    intro a b hab hba
    rw [Std.OrientedOrd.eq_swap, hba] at hab
    exact absurd hab (by decide)
  have hnodup : ∀ {list : List (Bytes × Bytes)},
      (list.Pairwise fun a b => compare a.1 b.1 = .lt) → list.Nodup := by
    intro list hlist
    refine hlist.imp fun {a b} hab => ?_
    rintro rfl
    rw [Std.ReflOrd.compare_self] at hab
    exact absurd hab (by decide)
  exact List.Perm.eq_of_pairwise (fun a b _ _ => hasymm a b) hsorted hsorted'
    ((List.perm_ext_iff_of_nodup (hnodup hsorted) (hnodup hsorted')).mpr hmem)

/-- A list of entries in byte order that holds what a scan finds is the scan. -/
lemma Snapshot.scan_eq_of_mem_iff {view : Snapshot} {stem : Bytes}
    {entries : List (Bytes × Bytes)}
    (hsorted : entries.Pairwise fun a b => compare a.1 b.1 = .lt)
    (hmem : ∀ key value, (key, value) ∈ entries ↔
      view.get? key = some value ∧ key.startsWith stem = true) : view.scan stem = entries := by
  refine eq_of_ascending_of_mem_iff (view.pairwise_scan stem) hsorted ?_
  rintro ⟨key, value⟩
  rw [mem_scan_iff, hmem]

/-! ## The view of a write transaction -/

namespace WriteTransaction

variable (txn : WriteTransaction)

/-- An edit sets or clears one key. -/
lemma getElem?_applyEdit (entries : Entries) (key : Bytes) (edit : Option Bytes) (key' : Bytes) :
    (applyEdit entries key edit)[key']? = if key = key' then edit else entries[key']? := by
  cases edit with
  | none => simp [applyEdit, Std.TreeMap.getElem?_erase]
  | some value => simp [applyEdit, Std.TreeMap.getElem?_insert]

/-- The view answers what the transaction answers under a key. -/
theorem get?_view (key : Bytes) : txn.view.get? key = txn.get? key := by
  have hfold := foldl_look_treeMap (fun (entries : Entries) k => entries[k]?) getElem?_applyEdit
    txn.edits txn.base.entries key
  simp only [get?, Snapshot.get?, view, entries]
  rw [hfold]
  cases txn.edits[key]? <;> rfl

/-- The view answers what the transaction answers at a page. -/
theorem run_view (page : PageId) : txn.view.run page = txn.run page := by
  have hset : ∀ (runs : Runs) (k : PageId) (run : Run) (k' : PageId),
      (runs.insert k run)[k']? = if k = k' then some run else runs[k']? := by
    intro runs k run k'
    simp [Std.TreeMap.getElem?_insert]
  have hfold := foldl_look_treeMap (fun (runs : Runs) k => runs[k]?) hset txn.runs
    txn.base.runs page
  simp only [view, Snapshot.run, run]
  rw [hfold]
  cases txn.runs[page]? <;> rfl

/-- A transaction sees its own page numbers. -/
lemma nextPage_view : txn.view.nextPage = txn.nextPage := rfl

/-! ## Changes -/

/-- A transaction sees the value that it has put under a key. -/
theorem get?_view_put (key value key' : Bytes) :
    (txn.put key value).view.get? key' = if key = key' then some value else txn.view.get? key' := by
  rw [get?_view, get?_view]
  simp only [get?, put, Std.TreeMap.getElem?_insert, Std.LawfulEqCmp.compare_eq_iff_eq]
  split_ifs <;> rfl

/-- Putting a value leaves the page runs. -/
@[simp]
lemma run_view_put (key value : Bytes) (page : PageId) :
    (txn.put key value).view.run page = txn.view.run page := by
  rw [run_view, run_view]
  rfl

/-- A transaction sees the page run that it has put at a page. -/
lemma run_view_insert (page : PageId) (contents : Run) (next : UInt64) (page' : PageId) :
    ({ txn with nextPage := next, runs := txn.runs.insert page contents } :
      WriteTransaction).view.run page' =
      if page = page' then .ok contents else txn.view.run page' := by
  rw [run_view, run_view]
  simp only [run, Std.TreeMap.getElem?_insert, Std.LawfulEqCmp.compare_eq_iff_eq]
  split_ifs <;> rfl

/-- What one transaction leaves of another that went on from it by changing runs only. -/
structure SameEntries (txn' : WriteTransaction) : Prop where
  base : txn'.base = txn.base
  get? : ∀ key, txn'.view.get? key = txn.view.get? key

/-- Replacing a run by one of the same length changes that run. -/
theorem exists_writeRun {page : PageId} {run contents : Run} (h : txn.view.run page = .ok run)
    (hsize : contents.size = run.size) :
    ∃ txn', txn.writeRun page contents = .ok txn' ∧ txn.SameEntries txn' ∧
      txn'.nextPage = txn.nextPage ∧
      ∀ page', txn'.view.run page' = if page = page' then .ok contents else txn.view.run page' := by
  refine ⟨{ txn with runs := txn.runs.insert page contents }, ?_, ⟨rfl, fun key => ?_⟩, rfl,
    txn.run_view_insert page contents txn.nextPage⟩
  · rw [run_view] at h
    simp [writeRun, h, hsize, bind, Except.bind, pure, Except.pure]
  · rw [get?_view, get?_view]
    rfl

/-- A run that is handed out starts at the next page and holds zeros. -/
theorem exists_allocate {pages : Nat} (h : pages ≠ 0) :
    ∃ txn', txn.allocate pages = .ok (⟨txn.nextPage⟩, txn') ∧ txn.SameEntries txn' ∧
      txn'.nextPage = txn.nextPage + UInt64.ofNat pages ∧
      ∀ page', txn'.view.run page' =
        if ⟨txn.nextPage⟩ = page' then .ok (Run.blank pages) else txn.view.run page' := by
  let txn' : WriteTransaction := { txn with
    nextPage := txn.nextPage + UInt64.ofNat pages
    runs := txn.runs.insert ⟨txn.nextPage⟩ (Run.blank pages) }
  refine ⟨txn', ?_, ⟨rfl, fun key => ?_⟩, rfl,
    txn.run_view_insert ⟨txn.nextPage⟩ (Run.blank pages) _⟩
  · rw [allocate, if_neg h]
  · rw [get?_view, get?_view]
    rfl

/-- One transaction has gone on from another by handing out runs. -/
structure Extends (txn' : WriteTransaction) : Prop where
  sameEntries : txn.SameEntries txn'
  nextPage_le : txn.nextPage ≤ txn'.nextPage
  run : ∀ page, page.number < txn.nextPage → txn'.view.run page = txn.view.run page

/-- A transaction extends itself. -/
lemma Extends.refl : txn.Extends txn where
  sameEntries := ⟨rfl, fun _ => rfl⟩
  nextPage_le := UInt64.le_refl _
  run _ _ := rfl

variable {txn} in
/-- Extensions may follow each other. -/
lemma Extends.trans {txn' txn'' : WriteTransaction} (h : txn.Extends txn')
    (h' : txn'.Extends txn'') : txn.Extends txn'' where
  sameEntries := ⟨h'.sameEntries.base.trans h.sameEntries.base, fun key =>
    (h'.sameEntries.get? key).trans (h.sameEntries.get? key)⟩
  nextPage_le := UInt64.le_trans h.nextPage_le h'.nextPage_le
  run page hpage :=
    (h'.run page (UInt64.lt_of_lt_of_le hpage h.nextPage_le)).trans (h.run page hpage)

/-- **Handing out a run** leaves all that had been handed out before, if page numbers suffice.

**Proof sketch.** The new page number does not wrap around, so that all earlier numbers are below
it. -/
theorem exists_allocate_extends {pages : Nat} (hpos : 0 < pages) (hlt : pages < UInt32.size)
    (hpages : txn.nextPage.toNat + UInt32.size ≤ UInt64.size) :
    ∃ txn', txn.allocate pages = .ok (⟨txn.nextPage⟩, txn') ∧ txn.Extends txn' ∧
      txn.nextPage < txn'.nextPage ∧
      txn'.view.run ⟨txn.nextPage⟩ = .ok (Run.blank pages) := by
  obtain ⟨txn', hallocate, hsame, hnext, hrun⟩ := txn.exists_allocate (Nat.ne_of_gt hpos)
  simp only [UInt32.size, UInt64.size] at hlt hpages
  have hsmall : pages < UInt64.size := by
    simp only [UInt64.size]
    omega
  have hlt' : txn.nextPage < txn'.nextPage := by
    rw [hnext, UInt64.lt_iff_toNat_lt, UInt64.toNat_add, UInt64.toNat_ofNat_of_lt' hsmall]
    omega
  refine ⟨txn', hallocate, ⟨hsame, UInt64.le_of_lt hlt', fun page hpage => ?_⟩, hlt', by
    rw [hrun, if_pos rfl]⟩
  rw [hrun, if_neg]
  rintro rfl
  exact UInt64.lt_irrefl _ hpage

variable {txn} in
/-- Page numbers that suffice for some runs suffice for fewer. -/
lemma suffices_le {count less : Nat}
    (hpages : txn.nextPage.toNat + count * UInt32.size ≤ UInt64.size) (hle : less ≤ count) :
    txn.nextPage.toNat + less * UInt32.size ≤ UInt64.size :=
  Nat.le_trans (Nat.add_le_add_left (Nat.mul_le_mul_right _ hle) _) hpages

variable {txn} in
/-- Page numbers that suffice for some runs and one more suffice for one. -/
lemma suffices_one {count : Nat}
    (hpages : txn.nextPage.toNat + (1 + count) * UInt32.size ≤ UInt64.size) :
    txn.nextPage.toNat + UInt32.size ≤ UInt64.size := by
  have hone := suffices_le hpages (Nat.le_add_right 1 count)
  rwa [Nat.one_mul] at hone

/-- One transaction has gone on from another by handing out no more than some number of runs. -/
structure Grows (txn : WriteTransaction) (count : Nat) (txn' : WriteTransaction) : Prop where
  extends_txn : txn.Extends txn'
  nextPage_le : txn'.nextPage.toNat ≤ txn.nextPage.toNat + count * UInt32.size

namespace Grows

variable {txn} {txn' txn'' : WriteTransaction} {count more : Nat}

/-- A transaction has grown by no run. -/
lemma refl (txn : WriteTransaction) : txn.Grows 0 txn where
  extends_txn := .refl txn
  nextPage_le := by omega

/-- Transactions may grow one from the other; the runs add up. -/
lemma trans (h : txn.Grows count txn') (h' : txn'.Grows more txn'') :
    txn.Grows (count + more) txn'' where
  extends_txn := h.extends_txn.trans h'.extends_txn
  nextPage_le := by
    have hle := h.nextPage_le
    have hle' := h'.nextPage_le
    rw [Nat.add_mul]
    omega

/-- The bound on the runs may be greater. -/
lemma mono (h : txn.Grows count txn') (hle : count ≤ more) : txn.Grows more txn' where
  extends_txn := h.extends_txn
  nextPage_le := h.nextPage_le.trans (Nat.add_le_add_left (Nat.mul_le_mul_right _ hle) _)

/-- What page numbers suffice for is used up run by run. -/
lemma suffices_more (h : txn.Grows count txn')
    (hpages : txn.nextPage.toNat + (count + more) * UInt32.size ≤ UInt64.size) :
    txn'.nextPage.toNat + more * UInt32.size ≤ UInt64.size := by
  rw [Nat.add_mul, ← Nat.add_assoc] at hpages
  exact Nat.le_trans (Nat.add_le_add_right h.nextPage_le _) hpages

end Grows

/-- **A run that is handed out** is one of which the numbers suffice for the next one too.

**Proof sketch.** A run has fewer than `2 ^ 32` pages. -/
theorem grows_of_allocate {txn txn' : WriteTransaction} {pages : Nat} {page : PageId}
    (h : txn.allocate pages = .ok (page, txn')) (hlt : pages < UInt32.size)
    (hpages : txn.nextPage.toNat + UInt32.size ≤ UInt64.size) : txn.Grows 1 txn' := by
  have hpos : 0 < pages := by
    rcases Nat.eq_zero_or_pos pages with hzero | hpos
    · rw [allocate, if_pos hzero] at h
      cases h
    · exact hpos
  obtain ⟨between, hallocate, hextends, _⟩ := txn.exists_allocate_extends hpos hlt hpages
  obtain ⟨_, rfl⟩ := Prod.mk.inj (Except.ok.inj (h.symm.trans hallocate))
  refine ⟨hextends, ?_⟩
  obtain ⟨found, hfound, _, hnext, _⟩ := txn.exists_allocate (Nat.ne_of_gt hpos)
  obtain ⟨_, rfl⟩ := Prod.mk.inj (Except.ok.inj (h.symm.trans hfound))
  have hmod : pages % 2 ^ 64 ≤ pages := Nat.mod_le _ _
  rw [hnext, UInt64.toNat_add, UInt64.toNat_ofNat']
  exact (Nat.mod_le _ _).trans (by omega)

variable {txn} in
/-- A run that is handed out leaves all that had been handed out before, unless page numbers
overflow. -/
theorem extends_of_allocate {txn' : WriteTransaction} {pages : Nat} {page : PageId}
    (h : txn.allocate pages = .ok (page, txn')) (hle : txn.nextPage ≤ txn'.nextPage) :
    txn.Extends txn' := by
  have hzero : pages ≠ 0 := by
    rintro rfl
    cases h
  obtain ⟨found, hfound, hsame, _, hruns⟩ := txn.exists_allocate hzero
  obtain ⟨_, rfl⟩ := Prod.mk.inj (Except.ok.inj (h.symm.trans hfound))
  refine ⟨hsame, hle, fun other hother => ?_⟩
  rw [hruns, if_neg]
  rintro rfl
  exact UInt64.lt_irrefl _ hother

variable {txn} in
/-- After a short run the next page number is greater, unless it overflows. -/
lemma lt_of_allocate {txn' : WriteTransaction} {pages : Nat} {page : PageId}
    (h : txn.allocate pages = .ok (page, txn')) (hlt : pages < UInt32.size)
    (hle : txn.nextPage ≤ txn'.nextPage) : txn.nextPage < txn'.nextPage := by
  have hzero : pages ≠ 0 := by
    rintro rfl
    cases h
  obtain ⟨found, hfound, _, hnext, _⟩ := txn.exists_allocate hzero
  obtain ⟨_, rfl⟩ := Prod.mk.inj (Except.ok.inj (h.symm.trans hfound))
  have hsmall : pages < UInt64.size := Nat.lt_trans hlt (by decide)
  rw [UInt64.le_iff_toNat_le] at hle
  rw [UInt64.lt_iff_toNat_lt]
  have hsum := congrArg UInt64.toNat hnext
  rw [UInt64.toNat_add, UInt64.toNat_ofNat_of_lt' hsmall] at hsum
  simp only [UInt32.size] at hlt
  omega

/-! ## Commits -/

/-- A transaction that has just been started sees the values of its base. -/
@[simp]
lemma get?_start (base : Snapshot) (key : Bytes) :
    (WriteTransaction.start base).view.get? key = base.get? key := by
  rw [get?_view]
  simp [get?, start]

/-- A transaction that has just been started sees the page runs of its base. -/
@[simp]
lemma run_start (base : Snapshot) (page : PageId) :
    (WriteTransaction.start base).view.run page = base.run page := by
  rw [run_view]
  simp [run, start]

/-- A commit keeps what its transaction saw under each key. -/
@[simp]
lemma get?_commit (key : Bytes) : txn.commit.get? key = txn.view.get? key := rfl

/-- A commit keeps the page runs that its transaction saw. -/
@[simp]
lemma run_commit (page : PageId) : txn.commit.run page = txn.view.run page := rfl

end WriteTransaction

end Proximity

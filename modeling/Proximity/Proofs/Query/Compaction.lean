import Proximity.Proofs.Query.Leaves

set_option relaxedAutoImplicit false
set_option autoImplicit false

/-!
# Keeping the least distance of each document

A list in ascending order of its documents has each document in one run. Collapsing the runs keeps
the least distance of each, in whatever order the distances of a run come. It can be done in the
place of the list: one pass reads every entry once and writes behind the last entry that has been
kept, which never gets ahead of the place where it reads.

## Main definitions

* `Proximity.KeepsLeast` — each document of a list once, with the least of its distances.
* `Proximity.IsLeastIn` — what is said there of a single entry.
* `Proximity.Compacting` — the invariant of the pass.

## Main results

* `Proximity.keepsLeast_collapse` — collapsing keeps the least distance of each document.
* `Proximity.collapse_eq_self` — it changes nothing where each document has one entry.
* `Proximity.compact_spec` — the pass leaves the collapsed list at the beginning.
* `Proximity.compact_keeps_least` — so it keeps the least distances, and a second pass changes
  nothing.
-/

namespace Proximity

/-! ## Distances -/

namespace Single

variable {x y z : Single}

/-- A number is not greater than itself. -/
lemma le_refl (hx : x.isNaN = false) : x.le x = true := by
  simp [le, hx]

/-- What is less is not greater. -/
lemma le_of_lt (h : x.lt y = true) : x.le y = true := by
  simp only [lt, le, Bool.and_eq_true, decide_eq_true_eq] at h ⊢
  exact ⟨h.1, Int.le_of_lt h.2⟩

/-- Of two numbers one is not greater than the other. -/
lemma le_of_lt_eq_false (hx : x.isNaN = false) (hy : y.isNaN = false) (h : x.lt y = false) :
    y.le x = true := by
  simp only [lt, le, hx, hy, Bool.not_false, Bool.true_and, decide_eq_false_iff_not,
    decide_eq_true_eq] at h ⊢
  exact Int.not_lt.mp h

/-- The order of the numbers is transitive. -/
lemma le_trans (hxy : x.le y = true) (hyz : y.le z = true) : x.le z = true := by
  simp only [le, Bool.and_eq_true, decide_eq_true_eq] at hxy hyz ⊢
  exact ⟨⟨hxy.1.1, hyz.1.2⟩, Int.le_trans hxy.2 hyz.2⟩

end Single

/-! ## The least distances -/

/-- **Each document of a list once, with the least of its distances**, in strictly ascending
order. -/
structure KeepsLeast (entries kept : List Scored) : Prop where
  ascending : (kept.map Prod.fst).Pairwise (· < ·)
  mem_iff : ∀ id, id ∈ kept.map Prod.fst ↔ id ∈ entries.map Prod.fst
  mem : ∀ entry ∈ kept, entry ∈ entries
  least : ∀ entry ∈ kept, ∀ other ∈ entries, other.1 = entry.1 → entry.2.le other.2 = true

/-- An entry of a list has the least distance of its document there. -/
def IsLeastIn (entries : List Scored) (entry : Scored) : Prop :=
  entry ∈ entries ∧ ∀ other ∈ entries, other.1 = entry.1 → entry.2.le other.2 = true

variable {entries list : List Scored} {last entry stays dropped : Scored}

/-- An entry of the same document that is not less can be put behind the first one. -/
lemma IsLeastIn.insert (h : IsLeastIn (stays :: list) entry) (hsame : dropped.1 = stays.1)
    (hle : stays.2.le dropped.2 = true) : IsLeastIn (stays :: dropped :: list) entry := by
  obtain ⟨hmem, hleast⟩ := h
  refine ⟨?_, fun other hother heq => ?_⟩
  · rcases List.mem_cons.mp hmem with rfl | hmem
    · exact List.mem_cons_self ..
    · exact List.mem_cons_of_mem _ (List.mem_cons_of_mem _ hmem)
  · rcases List.mem_cons.mp hother with rfl | hother
    · exact hleast other (List.mem_cons_self ..) heq
    rcases List.mem_cons.mp hother with rfl | hother
    · exact Single.le_trans (hleast stays (List.mem_cons_self ..) (hsame.symm.trans heq)) hle
    · exact hleast other (List.mem_cons_of_mem _ hother) heq

/-- The least entry does not depend on which of the first two comes first. -/
lemma IsLeastIn.swap {first second : Scored} (h : IsLeastIn (first :: second :: list) entry) :
    IsLeastIn (second :: first :: list) entry := by
  have hmem : ∀ other, other ∈ first :: second :: list ↔ other ∈ second :: first :: list :=
    fun _ => (List.Perm.swap second first list).mem_iff
  exact ⟨(hmem entry).mp h.1, fun other hother => h.2 other ((hmem other).mpr hother)⟩

/-- Entries of other documents can be put in front. -/
lemma IsLeastIn.cons (h : IsLeastIn list entry) (hne : last.1 ≠ entry.1) :
    IsLeastIn (last :: list) entry := by
  refine ⟨List.mem_cons_of_mem _ h.1, fun other hother heq => ?_⟩
  rcases List.mem_cons.mp hother with rfl | hother
  · exact absurd heq hne
  · exact h.2 other hother heq

/-- **What is kept of a list** has the least distance of its document.

**Proof sketch.** Induction on the list. An entry of the same document takes the place of the last
one if it is less, and whichever of the two is dropped is not less than the other. An entry of
another document ends the run, and no entry behind it is of the document of the run. -/
theorem isLeastIn_of_mem_collapseFrom (hsorted : (last :: list).Pairwise fun a b => a.1 ≤ b.1)
    (hnumbers : ∀ entry ∈ last :: list, entry.2.isNaN = false)
    (hentry : entry ∈ collapseFrom last list) : IsLeastIn (last :: list) entry := by
  induction list generalizing last with
  | nil =>
    obtain rfl := List.mem_singleton.mp hentry
    refine ⟨hentry, fun other hother _ => ?_⟩
    rw [List.mem_singleton.mp hother]
    exact Single.le_refl (hnumbers entry hentry)
  | cons next list ih =>
    obtain ⟨hhead, htail⟩ := List.pairwise_cons.mp hsorted
    obtain ⟨hnext, hlist⟩ := List.pairwise_cons.mp htail
    obtain ⟨hlastnumber, hrest⟩ := List.forall_mem_cons.mp hnumbers
    obtain ⟨hnextnumber, hlistnumbers⟩ := List.forall_mem_cons.mp hrest
    rw [collapseFrom] at hentry
    split_ifs at hentry with heq hlt
    · rw [show (last.1, next.2) = next from Prod.ext heq.symm rfl] at hentry
      exact ((ih htail hrest hentry).insert heq.symm (Single.le_of_lt hlt)).swap
    · have hrun : (last :: list).Pairwise fun a b => a.1 ≤ b.1 := List.pairwise_cons.mpr
        ⟨fun other hother => hhead other (List.mem_cons_of_mem _ hother), hlist⟩
      exact (ih hrun (List.forall_mem_cons.mpr ⟨hlastnumber, hlistnumbers⟩) hentry).insert heq
        (Single.le_of_lt_eq_false hnextnumber hlastnumber (Bool.not_eq_true _ ▸ hlt))
    · have hbehind : ∀ other ∈ next :: list, last.1 < other.1 := by
        have hless : last.1 < next.1 :=
          UInt64.lt_of_le_of_ne (hhead next (List.mem_cons_self ..)) (Ne.symm heq)
        exact List.forall_mem_cons.mpr
          ⟨hless, fun other hother => UInt64.lt_of_lt_of_le hless (hnext other hother)⟩
      rcases List.mem_cons.mp hentry with rfl | hentry
      · refine ⟨List.mem_cons_self .., List.forall_mem_cons.mpr
          ⟨fun _ => Single.le_refl hlastnumber, fun other hother hsame => ?_⟩⟩
        exact absurd hsame.symm (UInt64.ne_of_lt (hbehind other hother))
      · have hleast := ih htail hrest hentry
        exact hleast.cons (UInt64.ne_of_lt (hbehind entry hleast.1))

/-- **Collapsing keeps the least distance of each document.** -/
theorem keepsLeast_collapse (hsorted : entries.Pairwise fun a b => a.1 ≤ b.1)
    (hnumbers : ∀ entry ∈ entries, entry.2.isNaN = false) :
    KeepsLeast entries (collapse entries) := by
  have hleast : ∀ entry ∈ collapse entries, IsLeastIn entries entry := by
    cases entries with
    | nil => simp [collapse]
    | cons first rest => exact fun _ => isLeastIn_of_mem_collapseFrom hsorted hnumbers
  exact ⟨pairwise_collapse hsorted, mem_collapse entries,
    fun entry hentry => (hleast entry hentry).1, fun entry hentry => (hleast entry hentry).2⟩

/-- Collapsing changes nothing from an entry on if each document has one entry. -/
lemma collapseFrom_eq_cons (h : ((last :: list).map Prod.fst).Pairwise (· < ·)) :
    collapseFrom last list = last :: list := by
  induction list generalizing last with
  | nil => rfl
  | cons next list ih =>
    obtain ⟨hhead, htail⟩ := List.pairwise_cons.mp h
    have hlt : last.1 < next.1 := hhead next.1 (List.mem_cons_self ..)
    rw [collapseFrom, if_neg (UInt64.ne_of_lt hlt).symm, ih htail]

/-- **Collapsing changes nothing** where each document has one entry. -/
theorem collapse_eq_self (h : (list.map Prod.fst).Pairwise (· < ·)) : collapse list = list := by
  cases list with
  | nil => rfl
  | cons first rest => exact collapseFrom_eq_cons h

/-! ## In the place of the list -/

/-- **The invariant of the pass** before it reads a place: all from this place on is as it was, and
what has been kept before the last entry, followed by what becomes of that entry and of the rest, is
the collapsed list. -/
structure Compacting (entries : List Scored) (place : Nat) (state : Array Scored × Nat) : Prop where
  size : state.1.size = entries.length
  lt : state.2 < place
  unread : state.1.toList.drop place = entries.drop place
  kept : ∃ last, state.1[state.2]? = some last ∧
    state.1.toList.take state.2 ++ collapseFrom last (entries.drop place) = collapse entries

namespace Compacting

variable {place count : Nat} {state : Array Scored × Nat}

/-- The invariant holds before the second place is read. -/
lemma start (first : Scored) (rest : List Scored) :
    Compacting (first :: rest) 1 ((first :: rest).toArray, 0) where
  size := rfl
  lt := Nat.one_pos
  unread := rfl
  kept := ⟨first, rfl, rfl⟩

/-- **One step keeps the invariant.**

**Proof sketch.** The entry that is read is compared with the last one that is kept. If it is about
the same document it takes its place or is dropped, and otherwise it is written behind it. -/
theorem step (h : Compacting entries place state) (hplace : place < entries.length) :
    Compacting entries (place + 1) (compactAt state place) := by
  obtain ⟨written, keeps⟩ := state
  obtain ⟨last, hlast, hkept⟩ := h.kept
  have hlt : keeps < place := h.lt
  have hsize : written.size = entries.length := h.size
  have hunread : written.toList.drop place = entries.drop place := h.unread
  have hrest : written.toList.drop (place + 1) = entries.drop (place + 1) := by
    rw [← List.drop_drop, hunread, List.drop_drop]
  have hread : written[place]? = some entries[place] := by
    rw [← Array.getElem?_toList, ← List.head?_drop, hunread, List.head?_drop,
      List.getElem?_eq_getElem hplace]
  simp only at hlast hkept
  rw [List.drop_eq_getElem_cons hplace, collapseFrom] at hkept
  simp only [compactAt, hread, hlast]
  -- A place that has been read is written.
  have hset : ∀ at' entry, at' ≤ place →
      (written.setIfInBounds at' entry).toList.drop (place + 1) = entries.drop (place + 1) := by
    intro at' entry hle
    rw [Array.toList_setIfInBounds, List.drop_set_of_lt (by omega), hrest]
  have hgets : ∀ at' entry, at' ≤ place → (written.setIfInBounds at' entry)[at']? = some entry :=
    fun at' entry hle => Array.getElem?_setIfInBounds_self_of_lt (by omega)
  by_cases heq : entries[place].1 = last.1
  · rw [if_pos heq] at hkept ⊢
    by_cases hless : entries[place].2.lt last.2 = true
    · rw [if_pos hless] at hkept ⊢
      exact {
        size := by rw [Array.size_setIfInBounds]; exact hsize
        lt := Nat.lt_succ_of_lt hlt
        unread := hset keeps _ hlt.le
        kept := ⟨_, hgets keeps _ hlt.le, by
          rw [Array.toList_setIfInBounds, List.take_set_of_le (Nat.le_refl _)]
          exact hkept⟩ }
    · rw [if_neg hless] at hkept ⊢
      exact ⟨hsize, Nat.lt_succ_of_lt hlt, hrest, last, hlast, hkept⟩
  · rw [if_neg heq] at hkept ⊢
    have htake : written.toList.take (keeps + 1) = written.toList.take keeps ++ [last] := by
      rw [List.take_add_one, Array.getElem?_toList, hlast, Option.toList_some]
    exact {
      size := by rw [Array.size_setIfInBounds]; exact hsize
      lt := Nat.succ_lt_succ hlt
      unread := hset (keeps + 1) _ hlt
      kept := ⟨_, hgets (keeps + 1) _ hlt, by
        rw [Array.toList_setIfInBounds, List.take_set_of_le (Nat.le_refl _), htake,
          List.append_assoc]
        exact hkept⟩ }

/-- **The pass keeps the invariant.** -/
theorem foldl (h : Compacting entries place state) (hcount : place + count ≤ entries.length) :
    Compacting entries (place + count) ((List.range' place count).foldl compactAt state) := by
  induction count generalizing place state with
  | zero => exact h
  | succ count ih =>
    have hnext := ih (h.step (by omega)) (by omega)
    rw [List.range'_succ, List.foldl_cons]
    rwa [Nat.add_right_comm, Nat.add_assoc] at hnext

end Compacting

/-- **The pass leaves the collapsed list at the beginning**, and counts its entries.

**Proof sketch.** The invariant holds before the pass over the second entry. By induction it holds
at the end, where nothing is left to be read. -/
theorem compact_spec (entries : Array Scored) :
    (compact entries).1.size = entries.size ∧
      (compact entries).2 = (collapse entries.toList).length ∧
      (compact entries).1.toList.take (compact entries).2 = collapse entries.toList := by
  obtain ⟨list⟩ := entries
  cases list with
  | nil => exact ⟨rfl, rfl, rfl⟩
  | cons first rest =>
    have hplaces : 1 + rest.length ≤ (first :: rest).length := by
      rw [List.length_cons, Nat.add_comm]
    have hend := (Compacting.start first rest).foldl hplaces
    have hcompact : compact ⟨first :: rest⟩ =
        (((List.range' 1 rest.length).foldl compactAt (⟨first :: rest⟩, 0)).1,
          ((List.range' 1 rest.length).foldl compactAt (⟨first :: rest⟩, 0)).2 + 1) := rfl
    rw [hcompact]
    generalize (List.range' 1 rest.length).foldl compactAt (⟨first :: rest⟩, 0) = state at hend
    obtain ⟨last, hlast, hkept⟩ := hend.kept
    have htake : state.1.toList.take (state.2 + 1) = collapse (first :: rest) := by
      rw [← hkept, List.drop_eq_nil_of_le (by simp), collapseFrom, List.take_add_one,
        Array.getElem?_toList, hlast, Option.toList_some]
    have hlt : state.2 < state.1.toList.length := (Array.getElem?_eq_some_iff.mp hlast).1
    refine ⟨hend.size, ?_, htake⟩
    rw [← htake, List.length_take, Nat.min_eq_left hlt]

/-- **The pass keeps the least distance of each document.** What it leaves at the beginning is the
collapsed list, and a second pass over that keeps all of it as it is.

**Proof sketch.** The pass gives the collapsed list, which has one entry for each document and the
least of its distances. It ascends strictly, so that nothing is dropped in a second pass. -/
theorem compact_keeps_least {entries : Array Scored}
    (hsorted : entries.toList.Pairwise fun a b => a.1 ≤ b.1)
    (hnumbers : ∀ entry ∈ entries, entry.2.isNaN = false) :
    ∃ after count kept, compact entries = (after, count) ∧ kept = after.toList.take count ∧
      kept.length = count ∧ kept = collapse entries.toList ∧ KeepsLeast entries.toList kept ∧
      compact kept.toArray = (kept.toArray, count) := by
  obtain ⟨_, hcount, htake⟩ := compact_spec entries
  have hleast : KeepsLeast entries.toList (collapse entries.toList) :=
    keepsLeast_collapse hsorted fun entry hentry => hnumbers entry (Array.mem_toList_iff.mp hentry)
  refine ⟨_, _, collapse entries.toList, rfl, htake.symm, hcount.symm, rfl, hleast, ?_⟩
  obtain ⟨hsize, hcount', htake'⟩ := compact_spec (collapse entries.toList).toArray
  rw [List.toList_toArray, collapse_eq_self hleast.ascending] at hcount' htake'
  rw [List.take_of_length_le (by rw [Array.length_toList, hsize, hcount']; rfl)] at htake'
  exact Prod.ext (Array.toList_inj.mp htake') (hcount'.trans hcount.symm)

/-- Three distances of one document in no order, and one of another. -/
def unordered : Array Scored :=
  #[(1, .one), (1, .zero), (1, .one), (4, .one)]

/-- Of three entries of one document the least is kept, and the one of another document moves up
behind it. -/
theorem exists_compact_runs :
    unordered.toList.Pairwise (fun a b => a.1 ≤ b.1) ∧
      (∀ entry ∈ unordered, entry.2.isNaN = false) ∧
      ∃ after count kept, compact unordered = (after, count) ∧ kept = after.toList.take count ∧
        kept.length = count ∧ kept = collapse unordered.toList ∧
        KeepsLeast unordered.toList kept ∧ compact kept.toArray = (kept.toArray, count) := by
  have hsorted : unordered.toList.Pairwise (fun a b => a.1 ≤ b.1) := by decide
  have hnumbers : ∀ entry ∈ unordered, entry.2.isNaN = false := by decide
  exact ⟨hsorted, hnumbers, compact_keeps_least hsorted hnumbers⟩

end Proximity

import Mathlib.Data.List.Sort
import Mathlib.Tactic.SplitIfs
import Proximity.Proofs.Search
import Proximity.Query.VectorClause

set_option relaxedAutoImplicit false
set_option autoImplicit false

/-!
# The leaves of a query

A posting list and a vector clause that is combined with others each stand for a set of documents,
which they hold in strictly ascending order. They hand it out from the beginning on, and they narrow
a list of documents to those in the set, as often as they are asked and in whatever order. The walk
along two ascending lists finds all common documents although it stops at the end of one of them.

## Main definitions

* `Proximity.VectorClause.documents`, `Proximity.VectorClause.upcoming` — what a clause matches, and
  what of it has not been handed out.
* `Proximity.VectorClause.Sound` — a clause that is combined with others.

## Main results

* `Proximity.intersect_eq_filter` — the members of one list that are in the other.
* `Proximity.Posting.pairwise_ids_ofScored`, `Proximity.Posting.mem_ids_ofScored` — the documents of
  a new posting list.
* `Proximity.pairwise_collapse`, `Proximity.mem_collapse` — the documents of a clause.
* `Proximity.VectorClause.Sound.narrow_eq`, `Proximity.VectorClause.Sound.fill_eq` — what a clause
  answers.
-/

namespace Proximity

/-! ## Ascending lists -/

/-- Documents that come before a number are not at it or behind it. -/
lemma contains_dropWhile_lt {found : List UInt64} {id other : UInt64} (hle : id ≤ other) :
    (found.dropWhile (· < id)).contains other = found.contains other := by
  induction found with
  | nil => rfl
  | cons first found ih =>
    rw [List.dropWhile_cons]
    split
    · next hlt =>
      have hne : other ≠ first := by
        rintro rfl
        exact absurd (of_decide_eq_true hlt) (UInt64.not_lt.mpr hle)
      rw [ih, List.contains_cons, beq_eq_false_iff_ne.mpr hne, Bool.false_or]
    · rfl

/-- **The walk along two ascending lists** keeps the members of the first that are in the second.

**Proof sketch.** Induction on the first list. What the walk passes in the second one lies before
all that is left of the first. -/
theorem intersect_eq_filter {ids found : List UInt64} (hids : ids.Pairwise (· ≤ ·))
    (hfound : found.Pairwise (· < ·)) : intersect ids found = ids.filter found.contains := by
  induction ids generalizing found with
  | nil => rfl
  | cons id ids ih =>
    obtain ⟨hhead, htail⟩ := List.pairwise_cons.mp hids
    have hdrop : (found.dropWhile (· < id)).Pairwise (· < ·) :=
      hfound.sublist (List.dropWhile_sublist _)
    -- What the walk passes lies before all that is left of the first list.
    have hrest : ids.filter (found.dropWhile (· < id)).contains = ids.filter found.contains :=
      List.filter_congr fun other hother => contains_dropWhile_lt (hhead other hother)
    have hself : (found.dropWhile (· < id)).contains id = found.contains id :=
      contains_dropWhile_lt (UInt64.le_refl id)
    rw [intersect, List.filter_cons, ← hself, ← hrest]
    cases hwalk : found.dropWhile (· < id) with
    | nil => simp
    | cons first rest =>
      rw [hwalk] at hdrop
      have hfirst : id ≤ first := by
        have hnot := List.head_dropWhile_not (fun other => decide (other < id))
          (show found.dropWhile (· < id) ≠ [] by rw [hwalk]; exact List.cons_ne_nil _ _)
        simp only [hwalk, List.head_cons, decide_eq_false_iff_not, UInt64.not_lt] at hnot
        exact hnot
      dsimp only
      by_cases heq : first = id
      · rw [if_pos heq, ih htail hdrop, if_pos (by simp [heq])]
      · have hlt : id < first := UInt64.lt_of_le_of_ne hfirst (Ne.symm heq)
        have hnotMem : id ∉ first :: rest := by
          intro hmem
          rcases List.mem_cons.mp hmem with rfl | hmem
          · exact heq rfl
          · exact UInt64.lt_asymm hlt ((List.pairwise_cons.mp hdrop).1 id hmem)
        rw [if_neg heq, ih htail hdrop, if_neg (by simpa using hnotMem)]

/-! ## Sorting by number -/

/-- Sorting by number first, and by some rank among equal numbers. -/
lemma pairwise_mergeSort_by {le : Scored → Scored → Bool} {rank : Scored → Int}
    (hle : ∀ a b, le a b = true ↔ a.1 < b.1 ∨ a.1 = b.1 ∧ rank a ≤ rank b) (list : List Scored) :
    (list.mergeSort le).Pairwise fun a b => a.1 < b.1 ∨ a.1 = b.1 ∧ rank a ≤ rank b := by
  have htrans : ∀ a b c, le a b = true → le b c = true → le a c = true := by
    intro a b c hab hbc
    simp only [hle, UInt64.lt_iff_toNat_lt, ← UInt64.toNat_inj] at *
    omega
  have htotal : ∀ a b, (le a b || le b a) = true := by
    intro a b
    simp only [Bool.or_eq_true, hle, UInt64.lt_iff_toNat_lt, ← UInt64.toNat_inj]
    omega
  exact (List.pairwise_mergeSort htrans htotal list).imp (hle _ _).mp

/-- Sorting by number first, and by some rank among equal numbers, gives ascending numbers. -/
lemma pairwise_mergeSort_of {le : Scored → Scored → Bool} {rank : Scored → Int}
    (hle : ∀ a b, le a b = true ↔ a.1 < b.1 ∨ a.1 = b.1 ∧ rank a ≤ rank b) (list : List Scored) :
    (list.mergeSort le).Pairwise fun a b => a.1 ≤ b.1 := by
  refine (pairwise_mergeSort_by hle list).imp fun {a b} hab => ?_
  rcases hab with hlt | ⟨heq, _⟩
  · exact UInt64.le_of_lt hlt
  · exact UInt64.le_of_eq heq

/-- What is left behind a portion. -/
lemma drop_add_length_take {α : Type} (list : List α) (count room : Nat) :
    list.drop (count + ((list.drop count).take room).length) = (list.drop count).drop room := by
  rw [List.drop_drop, List.length_take, List.length_drop]
  rcases Nat.le_total room (list.length - count) with hle | hle
  · rw [Nat.min_eq_left hle]
  · rw [Nat.min_eq_right hle, List.drop_eq_nil_of_le (by omega), List.drop_eq_nil_of_le (by omega)]

/-! ## Posting lists -/

namespace Posting

variable {posting : Posting} {entries : List Scored}

/-- Dropping repeats keeps each document. -/
lemma mem_dropRepeats (list : List Scored) (id : UInt64) :
    id ∈ (dropRepeats list).map Prod.fst ↔ id ∈ list.map Prod.fst := by
  fun_induction dropRepeats list with
  | case1 => rfl
  | case2 entry => rfl
  | case3 entry next rest heq ih =>
    rw [ih]
    simp only [List.map_cons, List.mem_cons, ← heq]
    tauto
  | case4 entry next rest _ ih =>
    simp only [List.map_cons, List.mem_cons] at ih ⊢
    rw [ih]

/-- A list in ascending order without repeats is in strictly ascending order.

**Proof sketch.** Induction along the function. The next entry either is about the same document and
goes on, or it is greater than the one that is kept. -/
lemma pairwise_dropRepeats {list : List Scored} (h : list.Pairwise fun a b => a.1 ≤ b.1) :
    ((dropRepeats list).map Prod.fst).Pairwise (· < ·) := by
  fun_induction dropRepeats list with
  | case1 => exact .nil
  | case2 entry => exact List.pairwise_singleton _ _
  | case3 entry next rest _ ih =>
    exact ih (h.sublist (List.Sublist.cons_cons entry (List.sublist_cons_self next rest)))
  | case4 entry next rest hne ih =>
    obtain ⟨hhead, htail⟩ := List.pairwise_cons.mp h
    obtain ⟨hnext, _⟩ := List.pairwise_cons.mp htail
    refine List.pairwise_cons.mpr ⟨fun id hid => ?_, ih htail⟩
    have hlt : entry.1 < next.1 := UInt64.lt_of_le_of_ne (hhead next (by simp)) hne
    obtain ⟨other, hother, rfl⟩ := List.mem_map.mp ((mem_dropRepeats _ id).mp hid)
    rcases List.mem_cons.mp hother with rfl | hother
    · exact hlt
    · exact UInt64.lt_of_lt_of_le hlt (hnext other hother)

/-- **A new posting list** holds its documents in strictly ascending order. -/
theorem pairwise_ids_ofScored (entries : List Scored) :
    (ofScored entries).ids.Pairwise (· < ·) := by
  refine pairwise_dropRepeats (@pairwise_mergeSort_of notAfter (fun a => -a.2.rank) ?_ entries)
  intro a b
  simp [notAfter]

/-- **A new posting list** holds the documents that it has been made for. -/
theorem mem_ids_ofScored {entries : List Scored} {id : UInt64} :
    id ∈ (ofScored entries).ids ↔ id ∈ entries.map Prod.fst := by
  rw [ids, ofScored, mem_dropRepeats]
  exact (List.Perm.map Prod.fst (List.mergeSort_perm entries notAfter)).mem_iff

/-- What a posting list has not handed out. -/
def upcoming (posting : Posting) : List UInt64 :=
  posting.ids.drop posting.handedOut

/-- A portion of a posting is the beginning of what comes. -/
lemma fill_eq (posting : Posting) (room : Nat) :
    (posting.fill room).1 = posting.upcoming.take room ∧
      (posting.fill room).2.ids = posting.ids ∧
      (posting.fill room).2.upcoming = posting.upcoming.drop room :=
  ⟨rfl, rfl, drop_add_length_take posting.ids posting.handedOut room⟩

end Posting

/-! ## Runs of one document -/

/-- Collapsing keeps each document. -/
lemma mem_collapseFrom (last : Scored) (list : List Scored) (id : UInt64) :
    id ∈ (collapseFrom last list).map Prod.fst ↔ id = last.1 ∨ id ∈ list.map Prod.fst := by
  induction list generalizing last with
  | nil => simp [collapseFrom]
  | cons entry list ih =>
    rw [collapseFrom]
    split_ifs with heq hlt
    · simp only [ih, List.map_cons, List.mem_cons, heq]
      tauto
    · simp only [ih, List.map_cons, List.mem_cons, heq]
      tauto
    · simp only [List.map_cons, List.mem_cons, ih]

/-- Collapsing a list in ascending order leaves each document once.

**Proof sketch.** Induction on the list. The entry that is kept last changes its distance at
most. -/
lemma pairwise_collapseFrom {last : Scored} {list : List Scored}
    (h : (last :: list).Pairwise fun a b => a.1 ≤ b.1) :
    ((collapseFrom last list).map Prod.fst).Pairwise (· < ·) := by
  induction list generalizing last with
  | nil => exact List.pairwise_singleton _ _
  | cons entry list ih =>
    obtain ⟨hhead, htail⟩ := List.pairwise_cons.mp h
    obtain ⟨hentry, hlist⟩ := List.pairwise_cons.mp htail
    have hkept : ∀ kept : Scored, kept.1 = last.1 →
        (kept :: list).Pairwise fun a b => a.1 ≤ b.1 := fun kept heq =>
      List.pairwise_cons.mpr
        ⟨fun other hother => heq ▸ hhead other (List.mem_cons_of_mem _ hother), hlist⟩
    rw [collapseFrom]
    split_ifs with heq hlt
    · exact ih (hkept _ rfl)
    · exact ih (hkept _ rfl)
    · refine List.pairwise_cons.mpr ⟨fun id hid => ?_, ih htail⟩
      have hless : last.1 < entry.1 :=
        UInt64.lt_of_le_of_ne (hhead entry (by simp)) (Ne.symm heq)
      rcases (mem_collapseFrom entry list id).mp hid with rfl | hid
      · exact hless
      · obtain ⟨other, hother, rfl⟩ := List.mem_map.mp hid
        exact UInt64.lt_of_lt_of_le hless (hentry other hother)

/-- Each run of one document leaves one entry for it. -/
theorem mem_collapse (list : List Scored) (id : UInt64) :
    id ∈ (collapse list).map Prod.fst ↔ id ∈ list.map Prod.fst := by
  cases list with
  | nil => rfl
  | cons entry list => rw [collapse, mem_collapseFrom, List.map_cons, List.mem_cons]

/-- An ascending list whose runs have been collapsed is in strictly ascending order. -/
theorem pairwise_collapse {list : List Scored} (h : list.Pairwise fun a b => a.1 ≤ b.1) :
    ((collapse list).map Prod.fst).Pairwise (· < ·) := by
  cases list with
  | nil => exact .nil
  | cons entry list => exact pairwise_collapseFrom h

/-! ## Vector clauses -/

namespace VectorClause

variable {clause : VectorClause}

/-- What a clause that is combined with others matches. -/
def documents (clause : VectorClause) : List UInt64 :=
  match clause.materialize.mode with
  | .materialized found _ => found.map Prod.fst
  | _ => []

/-- What a clause that is combined with others has not handed out. -/
def upcoming (clause : VectorClause) : List UInt64 :=
  match clause.materialize.mode with
  | .materialized found handedOut => (found.map Prod.fst).drop handedOut
  | _ => []

/-- **A clause that is combined with others** holds its documents in strictly ascending order, and
it has none if the search had no results. -/
structure Sound (clause : VectorClause) : Prop where
  composed : clause.isStandalone = false
  ascending : clause.documents.Pairwise (· < ·)
  silent : clause.isEmpty = true → clause.documents = []

/-- Matches are taken once. -/
lemma materialize_materialize (clause : VectorClause) :
    clause.materialize.materialize = clause.materialize := by
  cases hmode : clause.mode with
  | standalone last => simp only [materialize, hmode]
  | untouched =>
    by_cases hempty : clause.isEmpty = true
    · simp [materialize, hmode, hempty]
    · simp [materialize, hmode, hempty]
  | materialized found handedOut => simp only [materialize, hmode]

/-- Taking the matches does not change whether there are any. -/
lemma isEmpty_materialize (clause : VectorClause) :
    clause.materialize.isEmpty = clause.isEmpty := by
  cases hmode : clause.mode with
  | standalone last => simp only [materialize, hmode]
  | untouched =>
    by_cases hempty : clause.isEmpty = true
    · simp [materialize, hmode, hempty]
    · simp [materialize, hmode, hempty]
  | materialized found handedOut => simp only [materialize, hmode]

/-- Taking the matches does not change the documents of a clause. -/
lemma documents_materialize (clause : VectorClause) :
    clause.materialize.documents = clause.documents := by
  rw [documents, documents, materialize_materialize]

/-- Taking the matches does not change which documents come. -/
lemma upcoming_materialize (clause : VectorClause) :
    clause.materialize.upcoming = clause.upcoming := by
  rw [upcoming, upcoming, materialize_materialize]

namespace Sound

/-- What a clause has taken. -/
lemma exists_materialized (h : clause.Sound) : ∃ found handedOut,
    clause.materialize.mode = .materialized found handedOut ∧
      clause.documents = found.map Prod.fst ∧
      clause.upcoming = (found.map Prod.fst).drop handedOut := by
  obtain ⟨found, handedOut, hmode⟩ : ∃ found handedOut,
      clause.materialize.mode = .materialized found handedOut := by
    have hcomposed := h.composed
    cases hmode : clause.mode with
    | standalone last => simp [isStandalone, hmode] at hcomposed
    | untouched =>
      by_cases hempty : clause.isEmpty = true
      · exact ⟨[], 0, by simp [materialize, hmode, hempty]⟩
      · exact ⟨_, 0, by simp only [materialize, hmode, hempty]; rfl⟩
    | materialized found handedOut => exact ⟨found, handedOut, by simp only [materialize, hmode]⟩
  exact ⟨found, handedOut, hmode, by rw [documents, hmode], by rw [upcoming, hmode]⟩

/-- A sound clause is sound after it has taken its matches. -/
lemma materialize (h : clause.Sound) : clause.materialize.Sound where
  composed := by
    obtain ⟨found, handedOut, hmode, _⟩ := h.exists_materialized
    rw [isStandalone, hmode]
  ascending := by
    rw [documents_materialize]
    exact h.ascending
  silent := by
    rw [isEmpty_materialize, documents_materialize]
    exact h.silent

/-- Narrowing takes the matches of the clause at most, in whatever order the documents are. -/
lemma narrow_cases (h : clause.Sound) (ids : List UInt64) :
    (clause.narrow ids).2 = clause ∨ (clause.narrow ids).2 = clause.materialize := by
  by_cases hempty : clause.isEmpty = true
  · rw [narrow, if_pos hempty]
    exact .inl rfl
  · obtain ⟨found, handedOut, hmode, _⟩ := h.exists_materialized
    rw [narrow, if_neg hempty]
    simp only [hmode]
    exact .inr trivial

/-- **Narrowing** keeps the documents that the clause matches.

**Proof sketch.** A clause that can match nothing keeps nothing. Otherwise its documents ascend, and
the walk keeps those that are among them. -/
theorem narrow_eq (h : clause.Sound) {ids : List UInt64} (hids : ids.Pairwise (· ≤ ·)) :
    (clause.narrow ids).1 = ids.filter clause.documents.contains ∧
      ((clause.narrow ids).2 = clause ∨ (clause.narrow ids).2 = clause.materialize) := by
  refine ⟨?_, h.narrow_cases ids⟩
  by_cases hempty : clause.isEmpty = true
  · rw [narrow, if_pos hempty, h.silent hempty]
    simp
  · obtain ⟨found, handedOut, hmode, hdocuments, _⟩ := h.exists_materialized
    have hascending := h.ascending
    rw [hdocuments] at hascending
    rw [narrow, if_neg hempty]
    simp only [hmode, hdocuments]
    exact intersect_eq_filter hids hascending

/-- Scoring takes the matches of the clause at most. -/
lemma score_cases (h : clause.Sound) (ids : List UInt64) (boost : Single)
    (slots : List Single) : (clause.score ids boost slots).2 = clause ∨
      (clause.score ids boost slots).2 = clause.materialize := by
  by_cases hempty : clause.isEmpty = true
  · rw [score, if_pos hempty]
    exact .inl rfl
  · obtain ⟨found, handedOut, hmode, _⟩ := h.exists_materialized
    rw [score, if_neg hempty]
    simp only [hmode]
    exact .inr trivial

/-- A portion of what a clause has taken moves on in it. -/
lemma fill_of_materialized {found : List Scored} {handedOut : Nat}
    (hempty : ¬clause.isEmpty = true)
    (hmode : clause.materialize.mode = .materialized found handedOut) (room : Nat) :
    clause.fill room = (((found.drop handedOut).take room).map Prod.fst,
      { clause.materialize with
        mode := .materialized found
          (handedOut + (((found.drop handedOut).take room).map Prod.fst).length) }) := by
  rw [fill, if_neg hempty]
  simp only [hmode]

/-- **Portions** come from the beginning of what has not been handed out.

**Proof sketch.** A clause that can match nothing has nothing ahead. Otherwise its documents have
been listed, and the portion moves the place up to which they have been handed out. -/
theorem fill_eq (h : clause.Sound) (room : Nat) :
    (clause.fill room).1 = clause.upcoming.take room ∧ (clause.fill room).2.Sound ∧
      (clause.fill room).2.documents = clause.documents ∧
      (clause.fill room).2.upcoming = clause.upcoming.drop room := by
  obtain ⟨found, handedOut, hmode, hdocuments, hupcoming⟩ := h.exists_materialized
  by_cases hempty : clause.isEmpty = true
  · have hnil : found.map Prod.fst = [] := hdocuments.symm.trans (h.silent hempty)
    rw [fill, if_pos hempty, hupcoming, hnil]
    simp only [List.drop_nil, List.take_nil, true_and]
    exact ⟨h, trivial⟩
  · set next : VectorClause := { clause.materialize with
      mode := .materialized found (handedOut + (((found.drop handedOut).take room).map
        Prod.fst).length) } with hnext
    have hfill : clause.fill room = (((found.drop handedOut).take room).map Prod.fst, next) :=
      fill_of_materialized hempty hmode room
    have hsame : next.materialize = next := by simp only [VectorClause.materialize, hnext]
    have hnextDocuments : next.documents = clause.documents := by
      rw [VectorClause.documents, hsame, hdocuments]
    rw [hfill]
    refine ⟨by rw [hupcoming, List.map_take, List.map_drop], ?_, hnextDocuments, ?_⟩
    · exact {
        composed := rfl
        ascending := by rw [hnextDocuments]; exact h.ascending
        silent := fun hnextEmpty =>
          absurd ((isEmpty_materialize clause).symm.trans hnextEmpty) hempty }
    · rw [VectorClause.upcoming, hsame, hupcoming]
      simp only [hnext, List.map_take, List.map_drop]
      exact drop_add_length_take _ _ _

end Sound

/-- What a new clause takes from its search. -/
lemma mode_materialize_composed (search : ResultStream) : (composed search).materialize.mode =
    .materialized (collapse ((search.pending.map entryOf).mergeSort notAfter)) 0 := by
  by_cases hempty : search.isEmpty = true
  · simp [materialize, composed, hempty, ResultStream.pending_eq_nil hempty, collapse]
  · rw [← ResultStream.drain_eq_pending (show 0 < drainRoom by decide)]
    simp only [materialize, composed, hempty]
    rfl

/-- **A clause that is made to be combined with others** matches what the search has not handed out
yet.

**Proof sketch.** The documents that are found are sorted and collapsed, which keeps the set of
them. -/
theorem sound_composed (search : ResultStream) : (composed search).Sound ∧
    (composed search).upcoming = (composed search).documents ∧
    ∀ id, id ∈ (composed search).documents ↔
      id ∈ search.pending.map fun candidate => candidate.id.raw := by
  have hmode := mode_materialize_composed search
  have hdocuments : (composed search).documents =
      (collapse ((search.pending.map entryOf).mergeSort notAfter)).map Prod.fst := by
    rw [documents, hmode]
  refine ⟨⟨rfl, ?_, fun hempty => ?_⟩, ?_, fun id => ?_⟩
  · rw [hdocuments]
    refine pairwise_collapse (@pairwise_mergeSort_of notAfter (fun a => a.2.rank) ?_ _)
    intro a b
    simp [notAfter]
  · rw [hdocuments, ResultStream.pending_eq_nil hempty, List.map_nil, List.mergeSort_nil, collapse,
      List.map_nil]
  · rw [upcoming, hmode, hdocuments]
    rfl
  · rw [hdocuments, mem_collapse, ((List.mergeSort_perm _ notAfter).map Prod.fst).mem_iff,
      List.map_map]
    rfl

end VectorClause

end Proximity

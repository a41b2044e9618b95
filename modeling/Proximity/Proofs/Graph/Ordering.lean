import Mathlib.Data.List.Sort
import Proximity.Graph.Candidate
import Proximity.Search.Nearest

set_option relaxedAutoImplicit false
set_option autoImplicit false

/-!
# The order of candidates

Candidates with different names never have the same place, so a list of candidates with different
names has exactly one ascending arrangement. Sorting produces it, and so does putting one candidate
after the other into its place; cutting the list back to its first `count` members on the way does
not change the first `count` members in the end.

## Main definitions

* `Proximity.Candidate.Ascending` — each candidate comes before all that follow it.

## Main results

* `Proximity.Candidate.Ascending.eq_of_perm` — there is one ascending arrangement.
* `Proximity.Candidate.ascending_insert` — insertion keeps the order.
* `Proximity.Candidate.ascending_sort` — sorting makes it.
* `Proximity.Search.foldl_keepNearest` — keeping the nearest of a sequence of candidates gives the
  beginning of the sorted sequence.
-/

namespace Proximity

namespace Candidate

/-! ## Comparing two candidates -/

/-- Of two candidates only one comes before the other. -/
lemma before_asymm {a b : Candidate} (h : a.before b = true) : b.before a = false := by
  cases hba : b.before a with
  | false => rfl
  | true => rw [← before_trans h hba, before_irrefl]

/-- Of two candidates with different names one comes before the other. -/
lemma before_or_before {a b : Candidate} (h : a.id ≠ b.id) :
    a.before b = true ∨ b.before a = true := by
  have hraw : a.id.raw.toNat ≠ b.id.raw.toNat := fun hab =>
    h (VectorId.mk.injEq _ _ ▸ UInt64.toNat_inj.mp hab)
  simp only [before_iff, UInt64.lt_iff_toNat_lt]
  omega

/-- A candidate is not after another one if the other is not before it. -/
lemma notAfter_iff {a b : Candidate} : a.notAfter b = true ↔ b.before a = false := by
  simp [notAfter]

/-- No candidate is after itself. -/
lemma notAfter_refl (a : Candidate) : a.notAfter a = true :=
  notAfter_iff.mpr (before_irrefl a)

/-- Not to be after is transitive. -/
lemma notAfter_trans {a b c : Candidate} (hab : a.notAfter b = true)
    (hbc : b.notAfter c = true) : a.notAfter c = true := by
  simp only [notAfter_iff, ← Bool.not_eq_true, before_iff, UInt64.lt_iff_toNat_lt] at *
  omega

/-- Of two candidates one is not after the other. -/
lemma notAfter_total (a b : Candidate) : (a.notAfter b || b.notAfter a) = true := by
  rw [Bool.or_eq_true, notAfter_iff, notAfter_iff]
  cases hba : b.before a with
  | false => exact .inl rfl
  | true => exact .inr (before_asymm hba)

/-- What comes before is not after. -/
lemma notAfter_of_before {a b : Candidate} (h : a.before b = true) : a.notAfter b = true :=
  notAfter_iff.mpr (before_asymm h)

/-- A candidate that is not after one that comes before a third comes before the third. -/
lemma before_of_notAfter_of_before {a b c : Candidate} (hab : a.notAfter b = true)
    (hbc : b.before c = true) : a.before c = true := by
  simp only [notAfter_iff, ← Bool.not_eq_true, before_iff, UInt64.lt_iff_toNat_lt] at *
  omega

/-! ## Ascending lists -/

/-- Each candidate of the list comes before all that follow it. -/
def Ascending (list : List Candidate) : Prop :=
  list.Pairwise fun a b => a.before b = true

namespace Ascending

variable {list other : List Candidate}

/-- A list in ascending order has no candidate twice. -/
lemma nodup (h : Ascending list) : list.Nodup :=
  h.imp fun {a b} hab => by
    rintro rfl
    rw [before_irrefl] at hab
    exact Bool.false_ne_true hab

/-- **There is one ascending arrangement**: two ascending lists with the same members are equal. -/
theorem eq_of_perm (h : Ascending list) (hother : Ascending other) (hp : list.Perm other) :
    list = other := by
  refine hp.eq_of_pairwise (fun a b _ _ hab hba => ?_) h hother
  rw [before_asymm hab] at hba
  exact absurd hba Bool.false_ne_true

/-- The beginning of a list in ascending order is in ascending order. -/
lemma take (h : Ascending list) (count : Nat) : Ascending (list.take count) :=
  h.sublist (List.take_sublist count list)

/-- What a cut leaves comes before what it takes away. -/
lemma before_of_mem_take_of_mem_drop (h : Ascending list) {count : Nat} {a b : Candidate}
    (ha : a ∈ list.take count) (hb : b ∈ list.drop count) : a.before b = true := by
  rw [Ascending, ← List.take_append_drop count list] at h
  exact (List.pairwise_append.mp h).2.2 a ha b hb

/-- A candidate is left by a cut, or else the cut leaves a full list of candidates before it. -/
lemma mem_take_or (h : Ascending list) {a : Candidate} (ha : a ∈ list) (count : Nat) :
    a ∈ list.take count ∨
      ((list.take count).length = count ∧ ∀ r ∈ list.take count, r.before a = true) := by
  rw [← List.take_append_drop count list] at ha
  refine (List.mem_append.mp ha).imp_right fun hdrop =>
    ⟨?_, fun r hr => h.before_of_mem_take_of_mem_drop hr hdrop⟩
  have hpos := List.length_pos_of_mem hdrop
  rw [List.length_drop] at hpos
  rw [List.length_take]
  omega

/-- The last candidate of an ascending list is after all others. -/
lemma notAfter_getLast (h : Ascending list) {worst a : Candidate}
    (hw : list.getLast? = some worst) (ha : a ∈ list) : a.notAfter worst = true := by
  obtain ⟨init, rfl⟩ := List.getLast?_eq_some_iff.mp hw
  rcases List.mem_append.mp ha with ha | ha
  · exact notAfter_of_before ((List.pairwise_append.mp h).2.2 a ha worst (by simp))
  · rw [List.mem_singleton.mp ha, notAfter_iff]
    exact before_irrefl worst

end Ascending

/-- Putting a candidate in its place adds it to the list. -/
lemma perm_insert (candidate : Candidate) (list : List Candidate) :
    (candidate.insert list).Perm (candidate :: list) := by
  induction list with
  | nil => exact .refl _
  | cons first rest ih =>
    rw [insert]
    split
    · exact .refl _
    · exact (ih.cons first).trans (.swap candidate first rest)

/-- Putting a candidate in its place adds it to the list. -/
@[simp]
lemma mem_insert {candidate a : Candidate} {list : List Candidate} :
    a ∈ candidate.insert list ↔ a = candidate ∨ a ∈ list := by
  rw [(perm_insert candidate list).mem_iff, List.mem_cons]

/-- Putting a candidate with a new name into its place keeps the list ascending.

**Proof sketch.** Induction on the list. Candidates with different names are comparable. -/
theorem ascending_insert {candidate : Candidate} {list : List Candidate} (h : Ascending list)
    (hnew : ∀ a ∈ list, a.id ≠ candidate.id) : Ascending (candidate.insert list) := by
  induction list with
  | nil => exact List.pairwise_singleton _ _
  | cons first rest ih =>
    obtain ⟨hfirst, hrest⟩ := List.pairwise_cons.mp h
    rw [insert]
    split
    · next hlt =>
      refine List.pairwise_cons.mpr ⟨fun a ha => ?_, h⟩
      rcases List.mem_cons.mp ha with rfl | ha
      · exact hlt
      · exact before_trans hlt (hfirst a ha)
    · next hnlt =>
      have hlt : first.before candidate = true :=
        (before_or_before (hnew first (by simp))).resolve_right hnlt
      refine List.pairwise_cons.mpr ⟨fun a ha => ?_, ih hrest fun a ha => hnew a (by simp [ha])⟩
      rcases mem_insert.mp ha with rfl | ha
      · exact hlt
      · exact hfirst a ha

/-- What comes after all of a list of `count` candidates comes after what is left of it when one
more candidate has been put in and the last one has been cut off. -/
lemma Ascending.before_of_mem_take_insert {candidate later a : Candidate} {list : List Candidate}
    {count : Nat} (h : Ascending (candidate.insert list)) (hfull : list.length = count)
    (hlater : ∀ b ∈ list, b.before later = true) (ha : a ∈ (candidate.insert list).take count) :
    a.before later = true := by
  rcases mem_insert.mp (List.mem_of_mem_take ha) with rfl | hin
  · -- The candidate stays, so some member of the list has been cut off behind it.
    obtain ⟨last, hlast⟩ : ∃ last, last ∈ (a.insert list).drop count := by
      apply List.exists_mem_of_length_pos
      rw [List.length_drop, length_insert]
      omega
    have hbefore : a.before last = true := h.before_of_mem_take_of_mem_drop ha hlast
    rcases mem_insert.mp (List.mem_of_mem_drop hlast) with rfl | hlast
    · rw [before_irrefl] at hbefore
      exact absurd hbefore Bool.false_ne_true
    · exact before_trans hbefore (hlater last hlast)
  · exact hlater a hin

/-- A candidate that comes after all of a list is put behind it. -/
lemma insert_of_forall_before {candidate : Candidate} {list : List Candidate}
    (h : ∀ a ∈ list, a.before candidate = true) : candidate.insert list = list ++ [candidate] := by
  induction list with
  | nil => rfl
  | cons first rest ih =>
    rw [insert, before_asymm (h first (by simp)), ih fun a ha => h a (by simp [ha])]
    rfl

/-- What is put into a list cut back to `count` members and cut off again might as well have been
put into the whole list. -/
lemma take_insert_take (candidate : Candidate) (count : Nat) (list : List Candidate) :
    (candidate.insert (list.take count)).take count = (candidate.insert list).take count := by
  induction list generalizing count with
  | nil => rw [List.take_nil]
  | cons first rest ih =>
    cases count with
    | zero => rfl
    | succ count =>
      rw [List.take_succ_cons, insert, insert]
      split
      · cases count with
        | zero => rfl
        | succ count => simp [List.take_take]
      · rw [List.take_succ_cons, List.take_succ_cons, ih]

/-! ## Sorting -/

/-- Sorting keeps the candidates. -/
lemma perm_sort (list : List Candidate) : (sort list).Perm list :=
  List.mergeSort_perm list _

/-- Sorting candidates with different names gives an ascending list. -/
theorem ascending_sort {list : List Candidate} (h : (list.map id).Nodup) :
    Ascending (sort list) := by
  have hsorted : (sort list).Pairwise fun a b => a.notAfter b = true :=
    @List.pairwise_mergeSort _ notAfter (fun _ _ _ => notAfter_trans) notAfter_total list
  have hids : ((sort list).map id).Nodup := ((perm_sort list).map id).nodup_iff.mpr h
  refine (hsorted.and (List.pairwise_map.mp hids)).imp fun {a b} hab => ?_
  refine (before_or_before hab.2).resolve_right fun hba => ?_
  rw [notAfter_iff.mp hab.1] at hba
  exact Bool.false_ne_true hba

/-- An ascending list with the same members is what sorting gives. -/
lemma eq_sort {list other : List Candidate} (h : Ascending list) (hp : list.Perm other)
    (hids : (other.map id).Nodup) : list = sort other :=
  h.eq_of_perm (ascending_sort hids) (hp.trans (perm_sort other).symm)

/-- The result of sorting depends on the members only. -/
lemma sort_eq_of_perm {list other : List Candidate} (hp : list.Perm other)
    (hids : (list.map id).Nodup) : sort list = sort other :=
  eq_sort (ascending_sort hids) ((perm_sort list).trans hp) ((hp.map id).nodup_iff.mp hids)

/-- Putting candidates into their places one after the other sorts them.

**Proof sketch.** Induction on the candidates: the list that has been built stays ascending, and an
ascending list is sorted. -/
lemma foldl_insert {candidates : List Candidate} :
    ∀ {list : List Candidate}, Ascending list → ((list ++ candidates).map id).Nodup →
      candidates.foldl (fun list candidate => candidate.insert list) list =
        sort (list ++ candidates) := by
  induction candidates with
  | nil =>
    intro list h hids
    rw [List.append_nil] at hids ⊢
    exact eq_sort h (.refl _) hids
  | cons candidate candidates ih =>
    intro list h hids
    have hp : (list ++ candidate :: candidates).Perm (candidate.insert list ++ candidates) :=
      List.perm_middle.trans ((perm_insert candidate list).symm.append_right candidates)
    have hnew : ∀ a ∈ list, a.id ≠ candidate.id := by
      intro a ha hid
      rw [List.map_append, List.map_cons, List.nodup_append] at hids
      exact hids.2.2 a.id (List.mem_map_of_mem ha) candidate.id (by simp) hid
    rw [List.foldl_cons, ih (ascending_insert h hnew) ((hp.map id).nodup_iff.mp hids)]
    exact (sort_eq_of_perm hp hids).symm

end Candidate

namespace Search

open Candidate

/-- Keeping the nearest `count` of a sequence of candidates is cutting off what putting all of them
into their places gives. -/
lemma foldl_keepNearest_take (count : Nat) (candidates list : List Candidate) :
    candidates.foldl (keepNearest count) (list.take count) =
      (candidates.foldl (fun list candidate => candidate.insert list) list).take count := by
  induction candidates generalizing list with
  | nil => rfl
  | cons candidate candidates ih =>
    rw [List.foldl_cons, List.foldl_cons, keepNearest, take_insert_take, ih]

/-- **Keeping the nearest** `count` of candidates with different names gives the first `count` of
them in ascending order, whatever the order in which they come. -/
theorem foldl_keepNearest (count : Nat) {candidates : List Candidate}
    (h : (candidates.map Candidate.id).Nodup) :
    candidates.foldl (keepNearest count) [] = (Candidate.sort candidates).take count := by
  have hfold := foldl_keepNearest_take count candidates []
  rw [List.take_nil, foldl_insert List.Pairwise.nil (by simpa using h)] at hfold
  simpa using hfold

end Search

end Proximity

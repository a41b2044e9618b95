import Proximity.Graph.Selection
import Proximity.Proofs.Except
import Proximity.Proofs.Graph.Ordering

set_option relaxedAutoImplicit false
set_option autoImplicit false

/-!
# Which candidates a selection takes

A selection takes the pinned candidates. Of the others it would keep, nearest first, each that is
nearer neither to a pinned candidate nor to one kept before it than to the node; it keeps as many of
these as there is room for, and gives the room that remains to the nearest of those passed over. The
rule is a condition on the candidates kept that mentions them on both of its sides, but it
determines them, because it asks of a candidate only about those before it.

## Main definitions

* `Proximity.Selection.Apart` — a candidate is nearer to none of some vectors than to the node.
* `Proximity.Selection.Diverse` — the rule, without a limit.
* `Proximity.Selection.pinnedIds`, `Proximity.Selection.free` — the names of the candidates that are
  pinned, and the other candidates.
* `Proximity.Selection.fillRoom` — what fits into some room.

## Main results

* `Proximity.Selection.diverse_iff` — exactly one list of candidates obeys the rule.
* `Proximity.Selection.exists_sweep_eq` — what a sweep keeps and passes over.
* `Proximity.Selection.select_eq` — what a selection puts in order.
-/

namespace Proximity.Selection

variable {ε : Type} {between : VectorId → VectorId → Except ε Single}
  {distance : VectorId → VectorId → Single} {limit : Nat} {pinned first : List VectorId}
  {candidates kept : List Candidate}

/-! ## The rule -/

/-- A candidate is nearer to none of the others than to the node. -/
def Apart (distance : VectorId → VectorId → Single) (candidate : Candidate)
    (others : List VectorId) : Prop :=
  ∀ other ∈ others, (distance candidate.id other).lt candidate.distance = false

/-- Whether a candidate is apart from others can be computed. -/
instance (candidate : Candidate) (others : List VectorId) :
    Decidable (Apart distance candidate others) :=
  inferInstanceAs (Decidable (∀ other ∈ others, _))

/-- **The rule of diversity**: of the candidates, those are kept that are nearer neither to one of
the `first` nor to one kept before them than to the node. -/
structure Diverse (distance : VectorId → VectorId → Single) (first : List VectorId)
    (candidates kept : List Candidate) : Prop where
  sublist : kept.Sublist candidates
  mem_iff : ∀ c ∈ candidates, c ∈ kept ↔ Apart distance c first ∧
    ∀ k ∈ kept, k.before c = true → (distance c.id k.id).lt c.distance = false

/-- The candidates that the rule keeps. -/
def diverse (distance : VectorId → VectorId → Single) (first : List VectorId) :
    List Candidate → List Candidate
  | [] => []
  | candidate :: candidates =>
    if Apart distance candidate first then
      candidate :: diverse distance (first ++ [candidate.id]) candidates
    else diverse distance first candidates

/-- To be apart from some vectors is to be apart from each. -/
lemma apart_cons {candidate : Candidate} {other : VectorId} {others : List VectorId} :
    Apart distance candidate (other :: others) ↔
      (distance candidate.id other).lt candidate.distance = false ∧
        Apart distance candidate others :=
  List.forall_mem_cons

/-- To be apart from some vectors is to be apart from each. -/
lemma apart_append_singleton {candidate : Candidate} {others : List VectorId} {other : VectorId} :
    Apart distance candidate (others ++ [other]) ↔ Apart distance candidate others ∧
      (distance candidate.id other).lt candidate.distance = false := by
  simp [Apart, or_imp, forall_and]

/-- The diverse candidates come in the order of all. -/
lemma diverse_sublist (first : List VectorId) (candidates : List Candidate) :
    (diverse distance first candidates).Sublist candidates := by
  induction candidates generalizing first with
  | nil => exact .slnil
  | cons candidate candidates ih =>
    rw [diverse]
    split_ifs
    · exact (ih _).cons_cons candidate
    · exact (ih _).cons candidate

section Cons

variable {candidate : Candidate} (h : Candidate.Ascending (candidate :: candidates))
include h

/-- No candidate comes before the first one. -/
lemma not_before_head {other : Candidate} (hother : other ∈ candidate :: candidates) :
    other.before candidate = false := by
  rcases List.mem_cons.mp hother with rfl | hother
  · exact Candidate.before_irrefl other
  · exact Candidate.before_asymm ((List.pairwise_cons.mp h).1 other hother)

/-- The first candidate does not come again. -/
lemma head_notMem : candidate ∉ candidates := fun hmem => by
  have hbefore := (List.pairwise_cons.mp h).1 candidate hmem
  rw [Candidate.before_irrefl] at hbefore
  exact Bool.false_ne_true hbefore

/-- What the rule asks of a candidate behind the first one that is kept. -/
lemma apart_cons_iff {other : Candidate} (hother : other ∈ candidates) {rest : List Candidate} :
    (Apart distance other (first ++ [candidate.id]) ∧
      ∀ k ∈ rest, k.before other = true → (distance other.id k.id).lt other.distance = false) ↔
    (Apart distance other first ∧ ∀ k ∈ candidate :: rest,
      k.before other = true → (distance other.id k.id).lt other.distance = false) := by
  have hbefore := (List.pairwise_cons.mp h).1 other hother
  rw [apart_append_singleton, List.forall_mem_cons, and_assoc]
  simp only [hbefore, forall_const]

/-- If the first candidate is apart then it is kept, and counts for the others.

**Proof sketch.** No candidate comes before the first one, so that it is kept as soon as it is apart
from those that are given. The others have to be apart from it as well. -/
lemma diverse_cons_of_apart (hapart : Apart distance candidate first) :
    Diverse distance first (candidate :: candidates) kept ↔
      ∃ rest, kept = candidate :: rest ∧
        Diverse distance (first ++ [candidate.id]) candidates rest := by
  have hne : ∀ c ∈ candidates, c ≠ candidate := fun c hc heq => head_notMem h (heq ▸ hc)
  constructor
  · intro hdiverse
    have hmem : candidate ∈ kept := by
      refine (hdiverse.mem_iff candidate (by simp)).mpr ⟨hapart, fun k hk hbefore => ?_⟩
      rw [not_before_head h (hdiverse.sublist.mem hk)] at hbefore
      exact absurd hbefore Bool.false_ne_true
    rcases List.sublist_cons_iff.mp hdiverse.sublist with hsub | ⟨rest, rfl, hsub⟩
    · exact absurd (hsub.mem hmem) (head_notMem h)
    · refine ⟨rest, rfl, hsub, fun c hc => ?_⟩
      rw [apart_cons_iff h hc, ← hdiverse.mem_iff c (by simp [hc])]
      simp [hne c hc]
  · rintro ⟨rest, rfl, hrest⟩
    refine ⟨hrest.sublist.cons_cons candidate, fun c hc => ?_⟩
    rcases List.mem_cons.mp hc with rfl | hc
    · refine iff_of_true (by simp) ⟨hapart, fun k hk hbefore => ?_⟩
      rw [not_before_head h ((hrest.sublist.cons_cons c).mem hk)] at hbefore
      exact absurd hbefore Bool.false_ne_true
    · rw [← apart_cons_iff h hc, ← hrest.mem_iff c hc]
      simp [hne c hc]

/-- If the first candidate is not apart then it is passed over. -/
lemma diverse_cons_of_not_apart (hapart : ¬Apart distance candidate first) :
    Diverse distance first (candidate :: candidates) kept ↔
      Diverse distance first candidates kept := by
  constructor
  · intro hdiverse
    refine ⟨?_, fun c hc => hdiverse.mem_iff c (by simp [hc])⟩
    rcases List.sublist_cons_iff.mp hdiverse.sublist with hsub | ⟨rest, rfl, _⟩
    · exact hsub
    · exact absurd ((hdiverse.mem_iff candidate (by simp)).mp (by simp)).1 hapart
  · intro hdiverse
    refine ⟨hdiverse.sublist.cons candidate, fun c hc => ?_⟩
    rcases List.mem_cons.mp hc with rfl | hc
    · exact iff_of_false (fun hmem => head_notMem h (hdiverse.sublist.mem hmem))
        fun hrule => hapart hrule.1
    · exact hdiverse.mem_iff c hc

end Cons

/-- **Exactly one list of candidates obeys the rule.**

**Proof sketch.** Induction on the candidates: whether the first one is kept depends on none of the
others. -/
theorem diverse_iff (h : Candidate.Ascending candidates) :
    Diverse distance first candidates kept ↔ kept = diverse distance first candidates := by
  induction candidates generalizing first kept with
  | nil =>
    refine ⟨fun hdiverse => List.sublist_nil.mp hdiverse.sublist, ?_⟩
    rintro rfl
    exact ⟨.slnil, by simp⟩
  | cons candidate candidates ih =>
    replace ih := fun first kept => @ih first kept (List.pairwise_cons.mp h).2
    rw [diverse]
    split_ifs with hapart
    · rw [diverse_cons_of_apart h hapart]
      simp [ih]
    · rw [diverse_cons_of_not_apart h hapart, ih]

/-! ## Pinned candidates -/

/-- The names of the pinned candidates. -/
def pinnedIds (pinned : List VectorId) (candidates : List Candidate) : List VectorId :=
  (candidates.map Candidate.id).filter fun id => pinned.contains id

/-- The candidates that are not pinned. -/
def free (pinned : List VectorId) (candidates : List Candidate) : List Candidate :=
  candidates.filter fun candidate => !pinned.contains candidate.id

/-- A free candidate is not pinned. -/
lemma notMem_of_mem_free {candidate : Candidate} (h : candidate ∈ free pinned candidates) :
    candidate.id ∉ pinned := by
  simpa using (List.mem_filter.mp h).2

/-- The free candidates are in ascending order if all are. -/
lemma ascending_free (h : Candidate.Ascending candidates) :
    Candidate.Ascending (free pinned candidates) :=
  h.sublist List.filter_sublist

/-- The candidates are those that are pinned and those that are free. -/
lemma perm_pinnedIds_append_free (pinned : List VectorId) (candidates : List Candidate) :
    (pinnedIds pinned candidates ++ (free pinned candidates).map Candidate.id).Perm
      (candidates.map Candidate.id) := by
  have hfree : (free pinned candidates).map Candidate.id =
      (candidates.map Candidate.id).filter fun id => !pinned.contains id := by
    rw [List.filter_map]
    rfl
  rw [hfree]
  exact List.filter_append_perm _ _

/-! ## The sweep -/

/-- A sweep ends where there is no room. -/
lemma sweep_of_full {first skipped : List VectorId} (h : limit ≤ first.length) :
    sweep between limit pinned first skipped candidates = .ok (first, skipped) := by
  cases candidates with
  | nil => rfl
  | cons candidate candidates => rw [sweep, if_pos h]

/-- A sweep leaves out the pinned candidates. -/
lemma sweep_free (first skipped : List VectorId) :
    sweep between limit pinned first skipped candidates =
      sweep between limit pinned first skipped (free pinned candidates) := by
  induction candidates generalizing first skipped with
  | nil => rfl
  | cons candidate candidates ih =>
    by_cases hfull : limit ≤ first.length
    · rw [sweep_of_full hfull, sweep_of_full hfull]
    · by_cases hpinned : pinned.contains candidate.id = true
      · rw [sweep, if_neg hfull, if_pos hpinned, ih, free, free,
          List.filter_cons_of_neg (by simpa using hpinned)]
      · have hfree : free pinned (candidate :: candidates) =
            candidate :: free pinned candidates :=
          List.filter_cons_of_pos (by simpa using hpinned)
        rw [hfree, sweep, sweep, if_neg hfull, if_neg hfull, if_neg hpinned, if_neg hpinned]
        simp only [ih]

/-- The test compares the distances between the vectors with those from the query. -/
lemma isDiverse_eq {candidate : Candidate} {others : List VectorId}
    (h : ∀ other ∈ others, between candidate.id other = .ok (distance candidate.id other)) :
    isDiverse between candidate others = .ok (decide (Apart distance candidate others)) := by
  induction others with
  | nil => simp [isDiverse, Apart]
  | cons other others ih =>
    obtain ⟨hother, hothers⟩ := List.forall_mem_cons.mp h
    rw [isDiverse, hother, Except.ok_bind, ih hothers]
    cases hnear : (distance candidate.id other).lt candidate.distance <;> simp [hnear, apart_cons]

/-- **What a sweep keeps and passes over** when no candidate is pinned: the first of those that the
rule keeps, as many as there is room for, and all others of the candidates if room remains.

**Proof sketch.** Induction on the candidates. -/
theorem exists_sweep_eq {ids : Set VectorId}
    (hbetween : ∀ a ∈ ids, ∀ b ∈ ids, between a b = .ok (distance a b)) (hnodup : candidates.Nodup)
    (hids : ∀ c ∈ candidates, c.id ∈ ids) (hfree : ∀ c ∈ candidates, c.id ∉ pinned) :
    ∀ {first : List VectorId} (skipped : List VectorId), (∀ id ∈ first, id ∈ ids) →
      ∃ passed : List Candidate, sweep between limit pinned first skipped candidates =
          .ok (first ++ ((diverse distance first candidates).take (limit - first.length)).map
            Candidate.id, skipped ++ passed.map Candidate.id) ∧
        ((diverse distance first candidates).length < limit - first.length →
          passed = candidates.filter (· ∉ diverse distance first candidates)) := by
  induction candidates with
  | nil => exact fun skipped _ => ⟨[], by simp [sweep, diverse], fun _ => rfl⟩
  | cons candidate candidates ih =>
    intro first skipped hfirst
    obtain ⟨hnotMem, hnodup⟩ := List.nodup_cons.mp hnodup
    replace ih := @ih hnodup (fun c hc => hids c (by simp [hc])) fun c hc => hfree c (by simp [hc])
    by_cases hfull : limit ≤ first.length
    · refine ⟨[], ?_, fun hroom => absurd hroom (by omega)⟩
      rw [sweep_of_full hfull, Nat.sub_eq_zero_of_le hfull]
      simp
    have hid : candidate.id ∈ ids := hids candidate (by simp)
    have hpinned : ¬pinned.contains candidate.id = true := by
      simpa using hfree candidate (by simp)
    rw [sweep, if_neg hfull, if_neg hpinned,
      isDiverse_eq fun other hother => hbetween _ hid other (hfirst other hother), Except.ok_bind]
    by_cases hapart : Apart distance candidate first
    · have hfirst' : ∀ id ∈ first ++ [candidate.id], id ∈ ids := by
        intro id hmem
        rcases List.mem_append.mp hmem with hmem | hmem
        · exact hfirst id hmem
        · exact List.mem_singleton.mp hmem ▸ hid
      obtain ⟨passed, hsweep, hpassed⟩ := ih skipped hfirst'
      have hroom : limit - first.length = limit - (first ++ [candidate.id]).length + 1 := by
        rw [List.length_append, List.length_singleton]
        omega
      rw [diverse, if_pos hapart, hroom]
      refine ⟨passed, ?_, fun hless => ?_⟩
      · rw [decide_eq_true hapart, if_pos rfl, hsweep, List.take_succ_cons, List.map_cons,
          List.append_assoc, List.singleton_append]
      · rw [hpassed (by simpa using hless), List.filter_cons_of_neg (by simp)]
        refine List.filter_congr fun c hc => ?_
        have hne : c ≠ candidate := fun heq => hnotMem (heq ▸ hc)
        simp [hne]
    · obtain ⟨passed, hsweep, hpassed⟩ := ih (skipped ++ [candidate.id]) hfirst
      rw [diverse, if_neg hapart]
      refine ⟨candidate :: passed, ?_, fun hless => ?_⟩
      · rw [decide_eq_false hapart, if_neg Bool.false_ne_true, hsweep, List.map_cons,
          List.append_assoc, List.singleton_append]
      · have hnone : candidate ∉ diverse distance first candidates := fun hmem =>
          hnotMem ((diverse_sublist first candidates).mem hmem)
        rw [hpassed hless, List.filter_cons_of_pos (by simpa using hnone)]

/-! ## The room that pinned candidates leave -/

/-- What fits into some room: those of the candidates that are kept, nearest first, and where room
remains the nearest of the others. -/
def fillRoom (room : Nat) (candidates kept : List Candidate) : List Candidate :=
  kept.take room ++ (candidates.filter (· ∉ kept)).take (room - kept.length)

/-- Room is filled in the order of the candidates, behind those that are kept. -/
lemma fillRoom_sublist (room : Nat) (candidates kept : List Candidate) :
    (fillRoom room candidates kept).Sublist (kept ++ candidates.filter (· ∉ kept)) :=
  (List.take_sublist _ _).append (List.take_sublist _ _)

section Kept

variable (hsub : kept.Sublist candidates)
include hsub

/-- The candidates are those that are kept and the others. -/
lemma perm_append_filter_notMem (hnodup : candidates.Nodup) :
    (kept ++ candidates.filter (· ∉ kept)).Perm candidates := by
  have hkept : (candidates.filter (· ∈ kept)).Perm kept := by
    refine (List.perm_ext_iff_of_nodup (hnodup.filter _) (hsub.nodup hnodup)).mpr fun c => ?_
    rw [List.mem_filter, decide_eq_true_eq]
    exact ⟨And.right, fun hc => ⟨hsub.mem hc, hc⟩⟩
  refine (hkept.symm.append_right _).trans ?_
  simpa using List.filter_append_perm (fun c => decide (c ∈ kept)) candidates

/-- Room is filled as far as there are candidates. -/
lemma length_fillRoom (hnodup : candidates.Nodup) (room : Nat) :
    (fillRoom room candidates kept).length = min room candidates.length := by
  have hcount := (perm_append_filter_notMem hsub hnodup).length_eq
  rw [List.length_append] at hcount
  rw [fillRoom, List.length_append, List.length_take, List.length_take]
  omega

/-- Room is filled with candidates. -/
lemma mem_of_mem_fillRoom {room : Nat} {candidate : Candidate}
    (h : candidate ∈ fillRoom room candidates kept) : candidate ∈ candidates := by
  rcases List.mem_append.mp ((fillRoom_sublist room candidates kept).mem h) with h | h
  · exact hsub.mem h
  · exact List.mem_of_mem_filter h

end Kept

/-- A selection before it is put in order: the pinned candidates, and what fits into the room that
they leave.

**Proof sketch.** A sweep without a limit keeps the diverse candidates and passes over the others in
their order; the limit only cuts both lists short. -/
theorem select_eq (hids : (candidates.map Candidate.id).Nodup)
    (hbetween : ∀ a ∈ candidates.map Candidate.id, ∀ b ∈ candidates.map Candidate.id,
      between a b = .ok (distance a b)) :
    select between limit pinned candidates =
      .ok (inOrder candidates (pinnedIds pinned candidates ++
        (fillRoom (limit - (pinnedIds pinned candidates).length) (free pinned candidates)
          (diverse distance (pinnedIds pinned candidates) (free pinned candidates))).map
            Candidate.id)) := by
  set first := pinnedIds pinned candidates with hfirst
  set kept := diverse distance first (free pinned candidates) with hkept
  obtain ⟨passed, hsweep, hpassed⟩ := @exists_sweep_eq ε between distance limit pinned
    (free pinned candidates) {id | id ∈ candidates.map Candidate.id} hbetween
    ((List.Nodup.of_map _ hids).filter _)
    (fun c hc => List.mem_map_of_mem (List.mem_of_mem_filter hc))
    (fun c hc => notMem_of_mem_free hc) first [] fun id hid => List.mem_of_mem_filter hid
  rw [← sweep_free, ← hkept, List.nil_append] at hsweep
  have hlength : (first ++ (kept.take (limit - first.length)).map Candidate.id).length =
      first.length + min (limit - first.length) kept.length := by
    rw [List.length_append, List.length_map, List.length_take]
  have hrest : passed.take (limit - (first ++ (kept.take (limit - first.length)).map
      Candidate.id).length) = ((free pinned candidates).filter (· ∉ kept)).take
        (limit - first.length - kept.length) := by
    rw [hlength, Nat.sub_add_eq]
    by_cases hroom : kept.length < limit - first.length
    · rw [hpassed hroom, Nat.min_eq_right hroom.le]
    · rw [Nat.min_eq_left (Nat.not_lt.mp hroom), Nat.sub_self,
        Nat.sub_eq_zero_of_le (Nat.not_lt.mp hroom), List.take_zero, List.take_zero]
  rw [select, show (candidates.map Candidate.id).filter (fun id => pinned.contains id) = first
    from rfl, hsweep, Except.ok_bind]
  simp only [← List.map_take, hrest, fillRoom, List.map_append, List.append_assoc]
  rfl

end Proximity.Selection

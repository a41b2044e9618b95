import Proximity.Proofs.Query.Denotation
import Proximity.Proofs.Query.Lookup

set_option relaxedAutoImplicit false
set_option autoImplicit false

/-!
# What a query scores

A query scores each document by itself. The score of a leaf is the best that the leaf has been given
for the document, times a factor; a boost changes the factor, and an intersection adds the scores of
its parts in their order. Neither the other documents of a call nor the calls before it matter, in
spite of the matches that vector clauses take on the way and of the slots that the parts of an
intersection share: every part writes into every slot.

Nothing is used of the arithmetic on scores, which is that of the program, so the sums are taken in
the order in which the program takes them.

## Main definitions

* `Proximity.QueryPlan` — how a query is put together; an intersection may have no parts.
* `Proximity.QueryPlan.value` — the score of a document, by recursion on the plan.
* `Proximity.Query.rate` — the score that a state of a query gives a document.
* `Proximity.Query.Steady` — a state of a query that gives the same scores.

## Main results

* `Proximity.Query.score_eq` — a query scores each document by itself.
* `Proximity.Query.steady_askAll` — any calls leave the scores as they were.
* `Proximity.QueryPlan.rate_build` — the scores that a new query gives.
* `Proximity.QueryPlan.score_askAll` — after any calls, a query gives the scores of its plan.
-/

namespace Proximity

/-! ## Plans -/

/-- How a query is put together. Other than in a `QueryTree`, an intersection may have no parts: it
then matches everything, which is no list of documents, but it does have scores. -/
inductive QueryPlan
  /-- A posting list for some scored documents. -/
  | posting (entries : List Scored)
  /-- A search that is combined with others, of which some results may have been handed out. -/
  | vector (search : ResultStream)
  /-- A query whose scores are multiplied by a factor. -/
  | boost (factor : Single) (inner : QueryPlan)
  /-- The intersection of some queries. -/
  | all (parts : List QueryPlan)

namespace QueryPlan

mutual

/-- The query. -/
def build : QueryPlan → Query
  | posting entries => .posting (.ofScored entries)
  | vector search => .vector (.composed search)
  | boost factor inner => .boost factor inner.build
  | all parts => .ofParts (buildAll parts)

/-- The queries. -/
def buildAll : List QueryPlan → List Query
  | [] => []
  | part :: parts => part.build :: buildAll parts

end

mutual

/-- **The score of a document**: the greatest score that a posting list has been given for it, or
the score of the least distance that a search hands out for it, times the factor, or zero if there
is none. A boost multiplies the factor, and the scores of the parts of an intersection are added
from the left, beginning with zero. -/
def value : QueryPlan → Single → UInt64 → Single
  | posting entries, factor, id =>
    weigh (fun score => score) factor (greatest (supplied entries id))
  | vector search, factor, id =>
    weigh search.score factor (least (supplied (search.pending.map VectorClause.entryOf) id))
  | boost own inner, factor, id => inner.value (factor * own) id
  | all parts, factor, id => (valueAll parts factor id).foldl (· + ·) .zero

/-- The scores that some queries give a document. -/
def valueAll : List QueryPlan → Single → UInt64 → List Single
  | [], _, _ => []
  | part :: parts, factor, id => part.value factor id :: valueAll parts factor id

end

/-- The order of the scored documents of a posting list does not matter. -/
lemma value_posting_perm {entries others : List Scored} (hperm : entries.Perm others) :
    (posting entries).value = (posting others).value := by
  funext factor id
  rw [value, value, greatest_supplied_perm hperm]

end QueryPlan

/-! ## Slots -/

/-- Values for all slots leave nothing of what was there. -/
lemma overwrite_eq {values slots : List Single} (h : slots.length = values.length) :
    overwrite values slots = values := by
  induction values generalizing slots with
  | nil => rw [List.length_eq_zero_iff.mp h, overwrite]; exact nofun
  | cons value values ih =>
    cases slots with
    | nil => simp at h
    | cons slot slots => rw [overwrite, ih (Nat.succ.inj h)]

/-! ## Vector clauses -/

namespace VectorClause

variable {clause : VectorClause}

/-- The score that a clause gives a document once it has taken its matches. -/
def rate (clause : VectorClause) (factor : Single) (id : UInt64) : Single :=
  match clause.materialize.mode with
  | .materialized found _ => clause.materialize.foundScore found factor id
  | _ => .zero

/-- Taking the matches does not change the scores of a clause. -/
lemma rate_materialize (clause : VectorClause) : clause.materialize.rate = clause.rate := by
  funext factor id
  rw [rate, rate, materialize_materialize]

namespace Sound

/-- A portion moves on in the matches at most. -/
lemma rate_fill (h : clause.Sound) (room : Nat) : (clause.fill room).2.rate = clause.rate := by
  by_cases hempty : clause.isEmpty = true
  · rw [fill, if_pos hempty]
  · obtain ⟨found, handedOut, hmode, _⟩ := h.exists_materialized
    funext factor id
    rw [fill_of_materialized hempty hmode, rate, rate, hmode]
    rfl

/-- **A clause scores each document by itself.**

**Proof sketch.** A clause that can match nothing scores everything zero, as a search among no
entries does. Otherwise each document is looked up by itself. -/
theorem score_eq (h : clause.Sound) {ids : List UInt64} {slots : List Single} (factor : Single)
    (hslots : slots.length = ids.length) :
    (clause.score ids factor slots).1 = ids.map (clause.rate factor) := by
  obtain ⟨found, handedOut, hmode, hdocuments, _⟩ := h.exists_materialized
  have hrate : clause.rate factor = clause.materialize.foundScore found factor := by
    funext id
    rw [rate, hmode]
  by_cases hempty : clause.isEmpty = true
  · have hfound : found = [] := List.map_eq_nil_iff.mp (hdocuments.symm.trans (h.silent hempty))
    have hzero : clause.rate factor = fun _ => .zero := by
      funext id
      rw [hrate, foundScore, hfound, bisect_eq_lookup .nil]
      rfl
    rw [score, if_pos hempty, hzero, List.map_const', List.map_const', hslots]
  · rw [score, if_neg hempty, hrate]
    simp only [hmode]
    exact overwrite_eq (hslots.trans (List.length_map _).symm)

end Sound

/-- **A new clause** gives a document the score of its least distance.

**Proof sketch.** The entries are sorted and collapsed before they are looked up, so that the least
distance is found. -/
theorem rate_composed (search : ResultStream) (factor : Single) (id : UInt64) :
    (composed search).rate factor id = (QueryPlan.vector search).value factor id := by
  have hscore : (composed search).materialize.search.score = search.score := by
    funext distance
    by_cases hempty : search.isEmpty = true
    · simp [materialize, composed, hempty]
    · simp only [materialize, composed, hempty]
      exact congrFun (ResultStream.score_drain drainRoom search) distance
  rw [rate, mode_materialize_composed, QueryPlan.value, ← bisect_collapse_mergeSort, ← hscore]
  rfl

end VectorClause

/-! ## Scores of a state -/

namespace Query

mutual

/-- The score that a state of a query gives a document. -/
def rate : Query → Single → UInt64 → Single
  | posting list, factor, id => list.score factor id
  | vector clause, factor, id => clause.rate factor id
  | boost own inner, factor, id => inner.rate (factor * own) id
  | everything, _, _ => .zero
  | both before leader behind, factor, id =>
    (rateAll before factor id ++ leader.rate factor id :: rateAll behind factor id).foldl
      (· + ·) .zero

/-- The scores that states of some queries give a document. -/
def rateAll : List Query → Single → UInt64 → List Single
  | [], _, _ => []
  | part :: parts, factor, id => part.rate factor id :: rateAll parts factor id

end

/-- The scores of parts are those of each of them. -/
lemma rateAll_eq (parts : List Query) (factor : Single) (id : UInt64) :
    rateAll parts factor id = parts.map fun part => part.rate factor id := by
  induction parts with
  | nil => rfl
  | cons part parts ih => rw [rateAll, ih, List.map_cons]

/-- The sums for some documents, with slots for all of them. -/
structure Sums.For (sums : Sums) (ids : List UInt64) (total : UInt64 → Single) : Prop where
  totals : sums.totals = ids.map total
  scratch : sums.scratch.length = ids.length

/-- No sums yet. -/
lemma Sums.blank_for (ids : List UInt64) : (Sums.blank ids.length).For ids fun _ => .zero where
  totals := by rw [blank, List.map_const']
  scratch := List.length_replicate

/-- The scores of one more part. -/
lemma Sums.For.add {sums : Sums} {ids : List UInt64} {total : UInt64 → Single}
    (h : sums.For ids total) (value : UInt64 → Single) :
    (sums.add (ids.map value)).For ids fun id => total id + value id where
  totals := by rw [Sums.add, h.totals, List.zipWith_map, List.zipWith_self]
  scratch := List.length_map _

mutual

/-- **A query scores each document by itself**, given a slot for each document, and whatever the
slots hold. -/
theorem score_eq : ∀ {query : Query}, query.Sound → ∀ {ids : List UInt64} {slots : List Single}
    (factor : Single), slots.length = ids.length →
      (query.score ids factor slots).1 = ids.map (query.rate factor)
  | posting list, _, ids, slots, factor, hslots =>
    overwrite_eq (hslots.trans (List.length_map _).symm)
  | vector clause, h, ids, slots, factor, hslots => VectorClause.Sound.score_eq h factor hslots
  | boost own inner, h, ids, slots, factor, hslots =>
    @score_eq inner h ids slots (factor * own) hslots
  | everything, _, ids, slots, factor, hslots =>
    overwrite_eq (hslots.trans (List.length_map _).symm)
  | both before leader behind, h, ids, slots, factor, hslots => by
    have hcount : min ids.length slots.length = ids.length := by rw [hslots, Nat.min_self]
    -- A part finds in the slots what the one before has left there; only their number matters.
    have hbefore := addScores_for h.1 factor (Sums.blank_for ids)
    have hleader := @score_eq leader h.2.1 ids _ factor hbefore.scratch
    have hbehind := addScores_for h.2.2 factor (hbefore.add (leader.rate factor))
    simp only [score, hcount, List.take_length, hleader, hbehind.totals]
    rw [overwrite_eq (hslots.trans (List.length_map _).symm)]
    refine List.map_congr_left fun id _ => ?_
    rw [rate, List.foldl_append, List.foldl_cons]

/-- Each part adds its scores to the sums, and writes into every slot. -/
lemma addScores_for : ∀ {parts : List Query}, AllSound parts → ∀ {ids : List UInt64}
    {sums : Sums} {total : UInt64 → Single} (factor : Single), sums.For ids total →
      (addScores parts ids factor sums).1.For ids fun id =>
        (rateAll parts factor id).foldl (· + ·) (total id)
  | [], _, _, _, _, _, hsums => hsums
  | part :: parts, h, ids, sums, total, factor, hsums => by
    have hpart := @score_eq part h.1 ids _ factor hsums.scratch
    have hrest := addScores_for h.2 factor (hsums.add (part.rate factor))
    simp only [addScores, hpart]
    exact hrest

end

/-! ## Calls -/

/-- **A state of a query** that gives the same scores. -/
structure Steady (query next : Query) : Prop where
  sound : next.Sound
  rate : next.rate = query.rate

/-- States of some queries that give the same scores. -/
structure SteadyAll (parts next : List Query) : Prop where
  sound : AllSound next
  rateAll : rateAll next = rateAll parts

/-- The scores of a sound query are its own. -/
lemma Steady.refl {query : Query} (h : query.Sound) : query.Steady query := ⟨h, rfl⟩

/-- The scores of sound parts are their own. -/
lemma SteadyAll.refl {parts : List Query} (h : AllSound parts) : SteadyAll parts parts := ⟨h, rfl⟩

/-- To have the same scores is transitive. -/
lemma Steady.trans {query middle next : Query} (h : query.Steady middle)
    (h' : middle.Steady next) : query.Steady next :=
  ⟨h'.sound, h'.rate.trans h.rate⟩

/-- A factor before queries with the same scores gives the same scores. -/
lemma Steady.boost {inner next : Query} (h : inner.Steady next) (factor : Single) :
    (Query.boost factor inner).Steady (.boost factor next) where
  sound := h.sound
  rate := by
    funext outer id
    simp only [Query.rate, h.rate]

/-- Parts have the same scores if the first one and the others have. -/
lemma SteadyAll.cons {part next : Query} {parts others : List Query} (h : part.Steady next)
    (hall : SteadyAll parts others) : SteadyAll (part :: parts) (next :: others) where
  sound := ⟨h.sound, hall.sound⟩
  rateAll := by
    funext factor id
    simp only [Query.rateAll, h.rate, hall.rateAll]

/-- A conjunction has the same scores if all of its parts have. -/
lemma Steady.both {before behind before' behind' : List Query} {leader leader' : Query}
    (hbefore : SteadyAll before before') (hleader : leader.Steady leader')
    (hbehind : SteadyAll behind behind') :
    (Query.both before leader behind).Steady (.both before' leader' behind') where
  sound := ⟨hbefore.sound, hleader.sound, hbehind.sound⟩
  rate := by
    funext factor id
    simp only [Query.rate, hbefore.rateAll, hleader.rate, hbehind.rateAll]

/-- Taking the matches of a clause does not change its scores. -/
lemma steady_vector {clause next : VectorClause} (h : clause.Sound)
    (hnext : next = clause ∨ next = clause.materialize) :
    (vector clause).Steady (vector next) := by
  rcases hnext with rfl | rfl
  · exact .refl h
  · refine ⟨h.materialize, ?_⟩
    funext factor id
    rw [rate, rate, clause.rate_materialize]

mutual

/-- Narrowing leaves the scores as they were, in whatever order the documents are. -/
lemma steady_narrow : ∀ {query : Query}, query.Sound → ∀ ids : List UInt64,
    query.Steady (query.narrow ids).2
  | posting _, h, _ => .refl h
  | vector _, h, ids => steady_vector h (VectorClause.Sound.narrow_cases h ids)
  | boost factor inner, h, ids => (@steady_narrow inner h ids).boost factor
  | everything, h, _ => .refl h
  | both before leader behind, h, ids => by
    have hbefore := @steadyAll_narrowAll before h.1 ids
    rw [narrow]
    simp only
    split
    · exact .both hbefore (.refl h.2.1) (.refl h.2.2)
    · exact .both hbefore (@steady_narrow leader h.2.1 _) (@steadyAll_narrowAll behind h.2.2 _)

/-- Narrowing a list by parts does not change their scores. -/
lemma steadyAll_narrowAll : ∀ {parts : List Query}, AllSound parts → ∀ ids : List UInt64,
    SteadyAll parts (narrowAll parts ids).2
  | [], h, _ => .refl h
  | part :: parts, h, ids => by
    rw [narrowAll]
    split
    · exact .refl h
    · exact .cons (@steady_narrow part h.1 ids) (@steadyAll_narrowAll parts h.2 _)

end

mutual

/-- Scoring leaves the scores as they were. -/
lemma steady_score : ∀ {query : Query}, query.Sound → ∀ (ids : List UInt64) (factor : Single)
    (slots : List Single), query.Steady (query.score ids factor slots).2
  | posting _, h, _, _, _ => .refl h
  | vector _, h, ids, factor, slots =>
    steady_vector h (VectorClause.Sound.score_cases h ids factor slots)
  | boost own inner, h, ids, factor, slots =>
    (@steady_score inner h ids (factor * own) slots).boost own
  | everything, h, _, _, _ => .refl h
  | both _ _ _, h, _, _, _ =>
    .both (steadyAll_addScores h.1 _ _ _) (steady_score h.2.1 _ _ _)
      (steadyAll_addScores h.2.2 _ _ _)

/-- Taking the scores of parts does not change them. -/
lemma steadyAll_addScores : ∀ {parts : List Query}, AllSound parts → ∀ (ids : List UInt64)
    (factor : Single) (sums : Sums), SteadyAll parts (addScores parts ids factor sums).2
  | [], h, _, _, _ => .refl h
  | _ :: _, h, _, _, _ => .cons (steady_score h.1 _ _ _) (steadyAll_addScores h.2 _ _ _)

end

/-- A round leaves the scores as they were. -/
lemma steady_round (room : Nat) : ∀ {query : Query}, query.Sound →
    query.Steady (query.round room).2
  | posting _, h => ⟨h, rfl⟩
  | vector clause, h => by
    refine ⟨(VectorClause.Sound.fill_eq h room).2.1, ?_⟩
    funext factor id
    exact congrFun (congrFun (VectorClause.Sound.rate_fill h room) factor) id
  | boost factor inner, h => (@steady_round room inner h).boost factor
  | everything, h => .refl h
  | both before leader behind, h => by
    have hleader := @steady_round room leader h.2.1
    rw [round]
    simp only
    split
    · exact .both (.refl h.1) hleader (.refl h.2.2)
    · exact .both (steadyAll_narrowAll h.1 _) hleader (steadyAll_narrowAll h.2.2 _)

/-- A portion leaves the scores as they were, by induction on its rounds. -/
lemma steady_fill (room : Nat) {query : Query} (h : query.Sound) :
    query.Steady (query.fill room).2 := by
  fun_induction fill room query with
  | case1 query result hlast hempty ih =>
    have hround : query.Steady result.2 := steady_round room h
    exact hround.trans (ih hround.sound)
  | case2 query result hlast hempty => exact steady_round room h
  | case3 query result hlast => exact steady_round room h

/-- **Any calls** leave the scores as they were.

**Proof sketch.** Induction on the calls. -/
theorem steady_askAll (calls : List QueryCall) {query : Query} (h : query.Sound) :
    query.Steady (query.askAll calls).2 := by
  induction calls generalizing query with
  | nil => exact .refl h
  | cons call calls ih =>
    have hcall : query.Steady (query.ask call).2 := by
      cases call with
      | fill room => exact steady_fill room h
      | narrow ids => exact steady_narrow h ids
      | score ids factor slots => exact steady_score h ids factor slots
    exact hcall.trans (ih hcall.sound)

end Query

/-! ## New queries -/

namespace QueryPlan

mutual

/-- **A new query** gives the scores of its plan.

**Proof sketch.** Recursion on the plan. The parts of an intersection are taken apart at the leader,
and their scores are added up in their order. -/
theorem rate_build : ∀ plan : QueryPlan, plan.build.Sound ∧ plan.build.rate = plan.value
  | posting entries => by
    refine ⟨Posting.pairwise_ids_ofScored entries, ?_⟩
    funext factor id
    rw [build, Query.rate, Posting.score_ofScored, value]
  | vector search => by
    refine ⟨(VectorClause.sound_composed search).1, ?_⟩
    funext factor id
    rw [build, Query.rate, VectorClause.rate_composed]
  | boost factor inner => by
    obtain ⟨hsound, hrate⟩ := rate_build inner
    refine ⟨hsound, ?_⟩
    funext outer id
    rw [build, Query.rate, hrate, value]
  | all parts => by
    obtain ⟨hsound, hrate⟩ := rateAll_buildAll parts
    cases parts with
    | nil => exact ⟨trivial, rfl⟩
    | cons part parts =>
      obtain ⟨before, leader, behind, hparts, hquery⟩ :=
        Query.exists_ofParts (List.cons_ne_nil part.build (buildAll parts))
      rw [buildAll, hparts] at hsound hrate
      rw [build, buildAll, hquery]
      rw [Query.allSound_iff, List.forall_mem_append, List.forall_mem_cons] at hsound
      refine ⟨⟨Query.allSound_iff.mpr hsound.1, hsound.2.1, Query.allSound_iff.mpr hsound.2.2⟩, ?_⟩
      funext factor id
      rw [value, ← hrate]
      simp only [Query.rate, Query.rateAll_eq, List.map_append, List.map_cons]

/-- The parts that are built from plans are sound, and their scores are the values of the plans. -/
lemma rateAll_buildAll : ∀ plans : List QueryPlan, Query.AllSound (buildAll plans) ∧
    Query.rateAll (buildAll plans) = valueAll plans
  | [] => ⟨trivial, rfl⟩
  | plan :: plans => by
    obtain ⟨hsound, hrate⟩ := rate_build plan
    obtain ⟨hothers, hrates⟩ := rateAll_buildAll plans
    refine ⟨⟨hsound, hothers⟩, ?_⟩
    funext factor id
    rw [buildAll, Query.rateAll, hrate, hrates, valueAll]

end

/-- **A query scores each document by itself**, whatever has been asked of it before: given a slot
for each document, each document gets the score of the plan, which does not depend on the order in
which scored documents were put into a posting list.

**Proof sketch.** A new query gives the scores of its plan, and calls leave them as they were. -/
theorem score_askAll (plan : QueryPlan) (calls : List QueryCall) (ids : List UInt64)
    (factor : Single) {slots : List Single} (hslots : slots.length = ids.length) :
    ((plan.build.askAll calls).2.score ids factor slots).1 = ids.map (plan.value factor) ∧
      ∀ entries others : List Scored, entries.Perm others →
        (posting entries).value = (posting others).value := by
  obtain ⟨hsound, hrate⟩ := rate_build plan
  have hsteady := Query.steady_askAll calls hsound
  refine ⟨?_, fun entries others => value_posting_perm⟩
  rw [Query.score_eq hsteady.sound factor hslots, hsteady.rate, hrate]

/-- A posting list that has been given one document twice, together with a boosted search that hands
it out twice, after a list out of order has been narrowed and a portion has been handed out. -/
theorem score_askAll_repeated :
    (((all [posting [(2, .zero), (1, .one), (2, .one)], boost .minusOne (vector
        (.ofResults (fun distance => .one / (.one + distance))
          [⟨.one, ⟨2⟩⟩, ⟨.zero, ⟨2⟩⟩]))]).build.askAll
      [.narrow [7, 2, 2], .fill 1]).2.score [7, 2] .one [.one, .one]).1 =
    [Single.zero + Single.zero + Single.zero, Single.zero + Single.one * Single.one +
      Single.one / (Single.one + Single.zero) * (Single.one * Single.minusOne)] := by
  rw [(score_askAll _ _ [7, 2] .one rfl).1]
  rfl
end QueryPlan

end Proximity

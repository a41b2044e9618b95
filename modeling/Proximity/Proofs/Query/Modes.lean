import Proximity.Proofs.Query.Scores

set_option relaxedAutoImplicit false
set_option autoImplicit false

/-!
# A search as a whole query and as a part of one

A search takes part in a query in one of two ways. If it is the whole query then documents come in
the order of the search, and scores come from the portion that was handed out last: the entry at the
place of the document in the call if that is its own, or else the first one that is. If it is
combined with other parts then the search is drained at once, documents come in ascending order, and
scores come from halving that list. For a search that hands out no document twice both ways hand out
the same documents, and a document of the portion has the same score both ways.

## Main definitions

* `Proximity.ResultStream.ids` — the documents that a search hands out, in its order.
* `Proximity.ResultStream.rating` — the score of the distance of a document.
* `Proximity.Query.drainBy` — what a query hands out in portions of given sizes.
* `Proximity.VectorClause.Stands` — a state of a search that is the whole query.

## Main results

* `Proximity.Query.drainBy_eq_upcoming` — a query hands out what it has ahead.
* `Proximity.VectorClause.Stands.drainBy_eq` — a search that is the whole query hands out its
  documents in its own order.
* `Proximity.VectorClause.Stands.score_eq` — its scores come from the last portion.
* `Proximity.ResultStream.modes_agree` — both ways agree.
-/

namespace Proximity

/-! ## Searches -/

namespace ResultStream

/-- The documents that a search has not handed out, in its order. -/
def ids (search : ResultStream) : List UInt64 :=
  search.pending.map fun candidate => candidate.id.raw

/-- The score of the distance of a document, times a factor, or zero if the search does not hand out
the document. -/
def rating (search : ResultStream) (factor : Single) (id : UInt64) : Single :=
  weigh search.score factor (lookup (search.pending.map VectorClause.entryOf) id)

variable {search : ResultStream}

/-- The documents of the entries are named as their candidates. -/
lemma map_fst_entryOf (candidates : List Candidate) :
    (candidates.map VectorClause.entryOf).map Prod.fst =
      candidates.map fun candidate => candidate.id.raw := by
  rw [List.map_map]
  rfl

/-- The rating of a document is that of its own distance. -/
lemma rating_of_mem (hnodup : search.ids.Nodup) {candidate : Candidate}
    (h : candidate ∈ search.pending) (factor : Single) :
    search.rating factor candidate.id.raw = search.score candidate.distance * factor := by
  rw [ids, ← map_fst_entryOf] at hnodup
  have hlookup := (lookup_eq_some_iff hnodup).mpr (List.mem_map_of_mem h)
  exact congrArg (weigh search.score factor) hlookup

/-- Among entries of distinct documents the only distance of a document is the least one. -/
lemma value_eq_rating (hnodup : search.ids.Nodup) :
    (QueryPlan.vector search).value = search.rating := by
  rw [ids, ← map_fst_entryOf, List.Nodup, List.pairwise_map] at hnodup
  funext factor id
  rw [QueryPlan.value, rating, lookup_perm_eq_least (.refl _)
    (hnodup.imp fun {a b} hne (heq : a.1 = b.1) => absurd heq hne)]

end ResultStream

/-! ## Portions of any sizes -/

namespace Query

/-- All documents that have not been handed out, taken in portions of given sizes. -/
def drainBy (rooms : Nat → Nat) (query : Query) : List UInt64 × Query :=
  let portion := query.fill (rooms 0)
  if _ : portion.1 = [] then portion
  else
    let rest := drainBy (fun n => rooms (n + 1)) portion.2
    (portion.1 ++ rest.1, rest.2)
termination_by query.remaining
decreasing_by exact remaining_fill_lt (rooms 0) query (by assumption)

/-- **Portions of any sizes** hand out everything that is ahead, if each one takes the beginning of
what is ahead, and none is empty before the end.

**Proof sketch.** Induction along the portions. -/
theorem drainBy_eq {Ahead : Query → List UInt64 → Prop}
    (hstep : ∀ {query : Query} {list : List UInt64} {room : Nat}, 0 < room → Ahead query list →
      ∃ rest, Ahead (query.fill room).2 rest ∧ (query.fill room).1 ++ rest = list ∧
        ((query.fill room).1 = [] → list = []))
    {rooms : Nat → Nat} (hrooms : ∀ n, 0 < rooms n) {query : Query} {list : List UInt64}
    (h : Ahead query list) : (query.drainBy rooms).1 = list := by
  induction rooms, query using drainBy.induct generalizing list with
  | case1 rooms query portion hempty =>
    obtain ⟨_, _, _, hnil⟩ := hstep (hrooms 0) h
    rw [drainBy, dif_pos hempty, hempty, hnil hempty]
  | case2 rooms query portion hsome ih =>
    obtain ⟨rest, hrest, happend, _⟩ := hstep (hrooms 0) h
    rw [drainBy, dif_neg hsome, ← happend]
    exact congrArg (portion.1 ++ ·) (ih (fun n => hrooms (n + 1)) hrest)

/-- **A query hands out what it has ahead**, whatever the sizes of the portions. -/
theorem drainBy_eq_upcoming {rooms : Nat → Nat} (hrooms : ∀ n, 0 < rooms n) {query : Query}
    (h : query.Sound) : (query.drainBy rooms).1 = query.upcoming := by
  refine @drainBy_eq (fun query list => query.Sound ∧ query.upcoming = list) ?_ rooms hrooms query
    _ ⟨h, rfl⟩
  rintro query _ room hroom ⟨hsound, rfl⟩
  obtain ⟨hnext, _, happend, hnil⟩ := fill_eq hroom hsound
  exact ⟨_, ⟨hnext, rfl⟩, happend, hnil⟩

/-- A portion of a query that is one clause. -/
lemma fill_vector (clause : VectorClause) (room : Nat) :
    (vector clause).fill room = ((clause.fill room).1, vector (clause.fill room).2) := by
  rw [fill]
  by_cases hempty : (clause.fill room).1 = []
  · simp [round, hempty]
  · simp [round, hempty]

end Query

/-! ## The whole query -/

namespace VectorClause

/-- **A state of a search that is the whole query**, with the entries that it handed out last. -/
structure Stands (search : ResultStream) (last : List Scored) (clause : VectorClause) : Prop where
  mode : clause.mode = .standalone last
  isEmpty : clause.isEmpty = search.isEmpty
  score : clause.search.score = search.score
  /-- The entries are some of those that the search had ahead, in its order. -/
  last : last.Sublist (search.pending.map entryOf)
  /-- The search has the end of that ahead. -/
  ahead : clause.search.pending <:+ search.pending

/-- A search that has just become the whole query. -/
lemma stands_standalone (search : ResultStream) : Stands search [] (standalone search) where
  mode := rfl
  isEmpty := rfl
  score := rfl
  last := List.nil_sublist _
  ahead := List.suffix_refl _

/-- In a list in which each document comes once, the entry at the place of a document is the one
that a search for the document finds. -/
lemma lastEntry_eq_lookup {last : List Scored} (hnodup : (last.map Prod.fst).Nodup) (place : Nat)
    (id : UInt64) : lastEntry last place id = lookup last id := by
  rw [lastEntry]
  cases hentry : last[place]? with
  | none => rfl
  | some entry =>
    simp only
    split
    · next heq =>
      exact ((lookup_eq_some_iff hnodup).mpr (heq ▸ List.mem_of_getElem? hentry)).symm
    · rfl

namespace Stands

variable {search : ResultStream} {last : List Scored} {clause : VectorClause}

/-- A clause that stands alone takes no matches in advance. -/
lemma materialize_eq (h : Stands search last clause) : clause.materialize = clause := by
  rw [materialize, h.mode]

/-- A search without results has nothing ahead and has handed out nothing. -/
lemma eq_nil_of_isEmpty (h : Stands search last clause) (hempty : clause.isEmpty = true) :
    last = [] ∧ clause.search.pending = [] := by
  have hpending : search.pending = [] := ResultStream.pending_eq_nil (h.isEmpty ▸ hempty)
  have hlast := h.last
  have hahead := h.ahead
  rw [hpending] at hlast hahead
  exact ⟨List.sublist_nil.mp hlast, List.suffix_nil.mp hahead⟩

/-- **A portion** is the beginning of what the search has ahead, and its entries are kept.

**Proof sketch.** By whether the search is known to be empty. If it is not, the portion is the next
one of the search. -/
theorem fill (h : Stands search last clause) (room : Nat) :
    ∃ kept, Stands search kept (clause.fill room).2 ∧ (clause.fill room).1 = kept.map Prod.fst ∧
      (clause.fill room).1 = clause.search.ids.take room ∧
      (clause.fill room).2.search.ids = clause.search.ids.drop room := by
  by_cases hempty : clause.isEmpty = true
  · obtain ⟨rfl, hpending⟩ := h.eq_nil_of_isEmpty hempty
    rw [VectorClause.fill, if_pos hempty, ResultStream.ids, hpending]
    exact ⟨[], h, rfl, List.take_nil.symm, List.drop_nil.symm⟩
  · have hportion : (clause.search.fill room room).1 = clause.search.pending.take room := by
      rw [ResultStream.fill, Nat.min_self]
    have hfill : clause.fill room = (((clause.search.fill room room).1.map entryOf).map Prod.fst,
        { clause with
          search := (clause.search.fill room room).2
          mode := .standalone ((clause.search.fill room room).1.map entryOf) }) := by
      rw [VectorClause.fill, if_neg hempty, h.materialize_eq]
      simp only [h.mode]
    rw [hfill]
    refine ⟨_, ⟨rfl, h.isEmpty, h.score, ?_, ?_⟩, rfl, ?_, ?_⟩
    · rw [hportion]
      exact ((List.take_sublist room _).trans h.ahead.sublist).map entryOf
    · rw [ResultStream.pending_fill]
      exact (List.drop_suffix room _).trans h.ahead
    · rw [hportion, ResultStream.map_fst_entryOf, ResultStream.ids, List.map_take]
    · rw [ResultStream.ids, ResultStream.pending_fill, ResultStream.ids, List.map_drop]

/-- Narrowing changes nothing. -/
lemma narrow_eq (h : Stands search last clause) (ids : List UInt64) :
    (clause.narrow ids).2 = clause := by
  rw [narrow]
  split
  · rfl
  · rw [h.materialize_eq]
    simp only [h.mode]

/-- Scoring changes nothing. -/
lemma score_snd_eq (h : Stands search last clause) (ids : List UInt64) (factor : Single)
    (slots : List Single) : (clause.score ids factor slots).2 = clause := by
  rw [VectorClause.score]
  split
  · rfl
  · rw [h.materialize_eq]
    simp only [h.mode]

/-- Calls that do not ask for a portion change nothing. -/
lemma ask_eq (h : Stands search last clause) {call : QueryCall} (hcall : call.isFill = false) :
    ((Query.vector clause).ask call).2 = .vector clause := by
  cases call with
  | fill room => cases hcall
  | narrow ids => exact congrArg Query.vector (h.narrow_eq ids)
  | score ids factor slots => exact congrArg Query.vector (h.score_snd_eq ids factor slots)

/-- A clause that stands alone is left as it is by all that does not ask for documents. -/
lemma askAll_eq (h : Stands search last clause) {calls : List QueryCall}
    (hcalls : ∀ call ∈ calls, call.isFill = false) :
    ((Query.vector clause).askAll calls).2 = .vector clause := by
  induction calls with
  | nil => rfl
  | cons call calls ih =>
    obtain ⟨hcall, hrest⟩ := List.forall_mem_cons.mp hcalls
    rw [Query.askAll]
    simp only [h.ask_eq hcall]
    exact ih hrest

/-- **Any calls** leave a search that is the whole query, by induction on them.

**Proof sketch.** Induction on the calls. Only a portion changes the clause. -/
theorem askAll (h : Stands search last clause) (calls : List QueryCall) :
    ∃ kept next, ((Query.vector clause).askAll calls).2 = .vector next ∧
      Stands search kept next := by
  induction calls generalizing last clause with
  | nil => exact ⟨last, clause, rfl, h⟩
  | cons call calls ih =>
    obtain ⟨kept, next, hnext, hstands⟩ : ∃ kept next,
        ((Query.vector clause).ask call).2 = .vector next ∧ Stands search kept next := by
      cases call with
      | fill room =>
        obtain ⟨kept, hkept, _⟩ := h.fill room
        exact ⟨kept, _, by rw [Query.ask, Query.fill_vector], hkept⟩
      | narrow ids => exact ⟨last, clause, h.ask_eq rfl, h⟩
      | score ids factor slots => exact ⟨last, clause, h.ask_eq rfl, h⟩
    rw [Query.askAll]
    simp only [hnext]
    exact ih hstands

/-- **The whole query hands out the documents of the search** in its own order, whatever the sizes
of the portions.

**Proof sketch.** Each portion is the next one of the search, and leaves the rest of it. -/
theorem drainBy_eq (h : Stands search last clause) {rooms : Nat → Nat} (hrooms : ∀ n, 0 < rooms n) :
    ((Query.vector clause).drainBy rooms).1 = clause.search.ids := by
  refine @Query.drainBy_eq (fun query list => ∃ kept clause, query = .vector clause ∧
    Stands search kept clause ∧ clause.search.ids = list) ?_ rooms hrooms _ _
      ⟨last, clause, rfl, h, rfl⟩
  rintro _ _ room hroom ⟨kept, clause, rfl, hstands, rfl⟩
  obtain ⟨portion, hnext, _, htake, hdrop⟩ := hstands.fill room
  rw [Query.fill_vector]
  refine ⟨_, ⟨portion, _, rfl, hnext, rfl⟩, ?_, fun hnil => ?_⟩
  · rw [htake, hdrop, List.take_append_drop]
  · rcases List.take_eq_nil_iff.mp (htake.symm.trans hnil) with hzero | hempty
    · omega
    · exact hempty

/-- The entries that were handed out last are of distinct documents. -/
lemma nodup_last (h : Stands search last clause) (hnodup : search.ids.Nodup) :
    (last.map Prod.fst).Nodup := by
  rw [ResultStream.ids, ← ResultStream.map_fst_entryOf] at hnodup
  exact hnodup.sublist (h.last.map Prod.fst)

/-- What the entries that were handed out last say of a document is what the search says of it. -/
lemma lookup_last (h : Stands search last clause) (hnodup : search.ids.Nodup) (id : UInt64) :
    lookup last id = if id ∈ last.map Prod.fst then lookup (search.pending.map entryOf) id
      else none := by
  split
  · next hmem =>
    obtain ⟨⟨_, distance⟩, hentry, rfl⟩ := List.mem_map.mp hmem
    rw [(lookup_eq_some_iff (h.nodup_last hnodup)).mpr hentry]
    rw [ResultStream.ids, ← ResultStream.map_fst_entryOf] at hnodup
    exact ((lookup_eq_some_iff hnodup).mpr (h.last.subset hentry)).symm
  · next hmem =>
    exact lookup_eq_none_iff.mpr fun entry hentry heq =>
      hmem (heq ▸ List.mem_map_of_mem hentry)

/-- The scores from the entries that were handed out last, by induction on the documents.

**Proof sketch.** Induction on the documents. Each has one entry, so that it does not matter at
which place of the call it comes. -/
lemma lastScores_eq (h : Stands search last clause) (hnodup : search.ids.Nodup)
    (factor : Single) (place : Nat) (ids : List UInt64) :
    clause.lastScores last factor place ids = ids.map fun id =>
      if id ∈ last.map Prod.fst then search.rating factor id else .zero := by
  induction ids generalizing place with
  | nil => rfl
  | cons id ids ih =>
    -- Each document has one entry, so it does not matter where in the call the document comes.
    have hentry : lastEntry last place id = if id ∈ last.map Prod.fst then
        lookup (search.pending.map entryOf) id else none := by
      rw [lastEntry_eq_lookup (h.nodup_last hnodup), h.lookup_last hnodup]
    have hscore : weigh clause.search.score factor (lastEntry last place id) =
        if id ∈ last.map Prod.fst then search.rating factor id else .zero := by
      rw [hentry, h.score]
      split_ifs
      · rfl
      · rfl
    rw [List.map_cons, ← hscore, ← ih (place + 1)]
    rfl

/-- **The whole query scores a document of its last portion** by the distance of the document, and
any other document zero.

**Proof sketch.** A clause that can match nothing has handed out nothing. Otherwise the scores come
from the entries of the last portion. -/
theorem score_eq (h : Stands search last clause) (hnodup : search.ids.Nodup) {ids : List UInt64}
    {slots : List Single} (factor : Single) (hslots : slots.length = ids.length) :
    (clause.score ids factor slots).1 = ids.map fun id =>
      if id ∈ last.map Prod.fst then search.rating factor id else .zero := by
  by_cases hempty : clause.isEmpty = true
  · obtain ⟨rfl, _⟩ := h.eq_nil_of_isEmpty hempty
    rw [VectorClause.score, if_pos hempty]
    simp only [List.map_nil, List.not_mem_nil, if_false]
    rw [List.map_const', List.map_const', hslots]
  · rw [VectorClause.score, if_neg hempty, h.materialize_eq]
    simp only [h.mode, h.lastScores_eq hnodup]
    exact overwrite_eq (hslots.trans (List.length_map _).symm)

end Stands

end VectorClause

/-! ## Both ways -/

namespace ResultStream

variable {search : ResultStream}

/-- After a portion, whatever was asked before and whatever but portions is asked after, the whole
query scores the documents of the portion by their distances, and others zero. -/
lemma score_standalone (hnodup : search.ids.Nodup) {before after : List QueryCall} {room : Nat}
    (hafter : ∀ call ∈ after, call.isFill = false) {batch : List UInt64} {filled : Query}
    (hfill : ((Query.vector (.standalone search)).askAll before).2.fill room = (batch, filled))
    {ids : List UInt64} {slots : List Single} (factor : Single)
    (hslots : slots.length = ids.length) :
    ((filled.askAll after).2.score ids factor slots).1 = ids.map fun id =>
      if id ∈ batch then search.rating factor id else .zero := by
  obtain ⟨_, clause, hclause, hstands⟩ := (VectorClause.stands_standalone search).askAll before
  obtain ⟨last, hnext, hbatch, _⟩ := hstands.fill room
  rw [hclause, Query.fill_vector] at hfill
  obtain ⟨rfl, rfl⟩ := Prod.mk.inj hfill
  rw [hnext.askAll_eq hafter, hbatch]
  exact hnext.score_eq hnodup factor hslots

/-- Whatever was asked before, a search that is combined with other parts scores each document by
its distance. -/
lemma score_composed (hnodup : search.ids.Nodup) (calls : List QueryCall) {ids : List UInt64}
    {slots : List Single} (factor : Single) (hslots : slots.length = ids.length) :
    (((Query.vector (.composed search)).askAll calls).2.score ids factor slots).1 =
      ids.map (search.rating factor) := by
  obtain ⟨hsound, hrate⟩ := (QueryPlan.vector search).rate_build
  have hsteady := Query.steady_askAll calls hsound
  rw [← value_eq_rating hnodup, ← hrate, ← hsteady.rate]
  exact Query.score_eq hsteady.sound factor hslots

/-- **Both ways agree** on a search that hands out no document twice. In portions of any positive
sizes, the whole query hands out the documents in the order of the search, and a search that is
combined with others hands out the same documents in ascending order. After any portion of the whole
query, the documents of the portion have the scores that they have in a search that is combined with
others, which are those of their distances, in whatever order and how often they are asked for, and
other documents score zero.

**Proof sketch.** In portions both ways hand out what the search has ahead, once in its order and
once in ascending order. A document has one entry in the search, and both ways score it by that. -/
theorem modes_agree (search : ResultStream) (hnodup : search.ids.Nodup) :
    (∀ rooms : Nat → Nat, (∀ n, 0 < rooms n) →
      ((Query.vector (.standalone search)).drainBy rooms).1 = search.ids ∧
      ((Query.vector (.composed search)).drainBy rooms).1.Pairwise (· < ·) ∧
      ((Query.vector (.composed search)).drainBy rooms).1.Perm search.ids) ∧
    (∀ (before after calls : List QueryCall) (room : Nat) (batch : List UInt64) (filled : Query)
      (ids : List UInt64) (factor : Single) (slots : List Single),
        ((Query.vector (.standalone search)).askAll before).2.fill room = (batch, filled) →
        (∀ call ∈ after, call.isFill = false) → slots.length = ids.length →
          ((filled.askAll after).2.score ids factor slots).1 =
            (ids.map fun id => if id ∈ batch then search.rating factor id else .zero) ∧
          (((Query.vector (.composed search)).askAll calls).2.score ids factor slots).1 =
            ids.map (search.rating factor) ∧
          ((∀ id ∈ ids, id ∈ batch) → ((filled.askAll after).2.score ids factor slots).1 =
            (((Query.vector (.composed search)).askAll calls).2.score ids factor slots).1)) ∧
    ∀ candidate ∈ search.pending, ∀ factor : Single,
      search.rating factor candidate.id.raw = search.score candidate.distance * factor := by
  refine ⟨fun rooms hrooms => ⟨?_, ?_⟩, ?_, fun candidate h factor => rating_of_mem hnodup h factor⟩
  · exact (VectorClause.stands_standalone search).drainBy_eq hrooms
  · have hdrain : ((Query.vector (.composed search)).drainBy rooms).1 =
        (QueryTree.vector search).documents :=
      Query.drainBy_eq_upcoming hrooms (QueryTree.fresh_build (.vector search)).1.sound
    have hascending := (QueryTree.vector search).pairwise_documents
    rw [hdrain]
    refine ⟨hascending, (List.perm_ext_iff_of_nodup (hascending.imp UInt64.ne_of_lt) hnodup).mpr ?_⟩
    exact fun id => QueryTree.mem_documents
  · intro before after calls room batch filled ids factor slots hfill hafter hslots
    have hstanding := score_standalone hnodup hafter hfill factor hslots
    have hcombined := score_composed hnodup calls factor hslots
    refine ⟨hstanding, hcombined, fun hids => ?_⟩
    rw [hstanding, hcombined]
    exact List.map_congr_left fun id hid => if_pos (hids id hid)

/-- Two documents that come in descending order, drained in growing portions, and then scored with a
repeat after a portion of both.

**Proof sketch.** The general result, for a search of two documents in descending order. -/
theorem modes_agree_descending : ∃ search : ResultStream, search.ids = [7, 3] ∧
    ((Query.vector (.standalone search)).drainBy fun n => n + 1).1 = [7, 3] ∧
    ((Query.vector (.composed search)).drainBy fun n => n + 1).1 = [3, 7] ∧
    ∃ filled, (Query.vector (.standalone search)).fill 2 = ([7, 3], filled) ∧
      (filled.score [3, 7, 3] .one [.one, .one, .one]).1 =
        ((Query.vector (.composed search)).score [3, 7, 3] .one [.one, .one, .one]).1 := by
  set search : ResultStream :=
    .ofResults (fun distance => .one / (.one + distance)) [⟨.zero, ⟨7⟩⟩, ⟨.one, ⟨3⟩⟩]
  obtain ⟨hdrain, hscore, _⟩ := modes_agree search (show [(7 : UInt64), 3].Nodup by decide)
  obtain ⟨hstanding, hascending, hperm⟩ := hdrain (fun n => n + 1) Nat.succ_pos
  have hfill : (Query.vector (.standalone search)).fill 2 =
      ([7, 3], .vector ((VectorClause.standalone search).fill 2).2) := Query.fill_vector _ _
  have hsorted : [(3 : UInt64), 7].Pairwise (· < ·) := by decide
  have hboth : ∀ id ∈ [(3 : UInt64), 7, 3], id ∈ [(7 : UInt64), 3] := by simp
  refine ⟨search, rfl, hstanding, ?_, _, hfill, ?_⟩
  · refine List.Perm.eq_of_pairwise (fun a b _ _ hab hba => absurd hab (UInt64.lt_asymm hba))
      hascending hsorted (hperm.trans ?_)
    exact List.Perm.swap 3 7 []
  · have hsame := hscore [] [] [] 2 [7, 3] (.vector ((VectorClause.standalone search).fill 2).2)
      [3, 7, 3] .one [.one, .one, .one] hfill nofun rfl
    exact hsame.2.2 hboth

end ResultStream

end Proximity

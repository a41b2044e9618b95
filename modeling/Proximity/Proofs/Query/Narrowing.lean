import Proximity.Proofs.Query.Leaves
import Proximity.Query

set_option relaxedAutoImplicit false
set_option autoImplicit false

/-!
# What a query matches

Each state of a query matches a set of documents, and the leaf that leads has some documents ahead
that it has not handed out. Narrowing a list and scoring documents change neither. A round takes a
portion of what is ahead and leaves of it what the query matches, so portions hand out what is ahead
of the query piece by piece: the documents of the leading leaf that all parts match, in strictly
ascending order.

## Main definitions

* `Proximity.Query.admits` — whether a query matches a document.
* `Proximity.Query.lead`, `Proximity.Query.upcoming` — what the leading leaf has not handed out, and
  what the query matches of it.
* `Proximity.Query.Sound` — every leaf holds its documents in strictly ascending order.
* `Proximity.Query.Keeps` — a state of a query with the same matches and the same documents ahead.

## Main results

* `Proximity.Query.narrow_eq` — narrowing keeps what the query matches.
* `Proximity.Query.keeps_score` — scoring changes nothing that can be seen.
* `Proximity.Query.round_eq` — one round.
* `Proximity.Query.fill_eq` — one portion.
* `Proximity.Query.exists_rounds` — a portion comes to an end after some rounds.
-/

namespace Proximity.Query

/-! ## Matches -/

mutual

/-- Whether a query matches a document. -/
def admits : Query → UInt64 → Bool
  | posting list, id => list.ids.contains id
  | vector clause, id => clause.documents.contains id
  | boost _ inner, id => inner.admits id
  | everything, _ => true
  | both before leader behind, id => admitsAll before id && leader.admits id && admitsAll behind id

/-- Whether all of some queries match a document. -/
def admitsAll : List Query → UInt64 → Bool
  | [], _ => true
  | part :: parts, id => part.admits id && admitsAll parts id

end

mutual

/-- **Every leaf of a query** holds its documents in strictly ascending order, and no vector clause
stands alone. -/
def Sound : Query → Prop
  | posting list => list.ids.Pairwise (· < ·)
  | vector clause => clause.Sound
  | boost _ inner => inner.Sound
  | everything => True
  | both before leader behind => AllSound before ∧ leader.Sound ∧ AllSound behind

/-- Every leaf of some queries holds its documents in strictly ascending order. -/
def AllSound : List Query → Prop
  | [] => True
  | part :: parts => part.Sound ∧ AllSound parts

end

/-- What the leading leaf has not handed out. -/
def lead : Query → List UInt64
  | posting list => list.upcoming
  | vector clause => clause.upcoming
  | boost _ inner => inner.lead
  | everything => []
  | both _ leader _ => leader.lead

/-- What a query matches of the documents that its leading leaf has not handed out. -/
def upcoming (query : Query) : List UInt64 :=
  query.lead.filter query.admits

/-- A document matches all parts if it matches each of them. -/
lemma admitsAll_eq (parts : List Query) (id : UInt64) :
    admitsAll parts id = parts.all fun part => part.admits id := by
  induction parts with
  | nil => rfl
  | cons part parts ih => rw [admitsAll, ih, List.all_cons]

/-- Parts are sound if each of them is. -/
lemma allSound_iff {parts : List Query} : AllSound parts ↔ ∀ part ∈ parts, part.Sound := by
  induction parts with
  | nil => simp [AllSound]
  | cons part parts ih => simp [AllSound, ih]

/-! ## What calls leave as it was -/

/-- **A state of a query** with the same matches and the same documents ahead. -/
structure Keeps (query next : Query) : Prop where
  sound : next.Sound
  admits : next.admits = query.admits
  lead : next.lead = query.lead

/-- States of some queries with the same matches. -/
structure KeepsAll (parts next : List Query) : Prop where
  sound : AllSound next
  admits : admitsAll next = admitsAll parts

/-- A sound query keeps what it matches and what it has ahead. -/
lemma Keeps.refl {query : Query} (h : query.Sound) : query.Keeps query := ⟨h, rfl, rfl⟩

/-- Sound parts keep what they match. -/
lemma KeepsAll.refl {parts : List Query} (h : AllSound parts) : KeepsAll parts parts := ⟨h, rfl⟩

/-- A factor before a query does not change what the query keeps. -/
lemma Keeps.boost {inner next : Query} (h : inner.Keeps next) (factor : Single) :
    (Query.boost factor inner).Keeps (.boost factor next) where
  sound := h.sound
  admits := by
    funext id
    simp only [Query.admits, h.admits]
  lead := h.lead

/-- Parts keep what they match if the first one and the others do. -/
lemma KeepsAll.cons {part next : Query} {parts others : List Query} (h : part.Keeps next)
    (hall : KeepsAll parts others) : KeepsAll (part :: parts) (next :: others) where
  sound := ⟨h.sound, hall.sound⟩
  admits := by
    funext id
    simp only [Query.admitsAll, h.admits, hall.admits]

/-- A conjunction keeps what it matches if all of its parts do. -/
lemma Keeps.both {before behind before' behind' : List Query} {leader leader' : Query}
    (hbefore : KeepsAll before before') (hleader : leader.Keeps leader')
    (hbehind : KeepsAll behind behind') :
    (Query.both before leader behind).Keeps (.both before' leader' behind') where
  sound := ⟨hbefore.sound, hleader.sound, hbehind.sound⟩
  admits := by
    funext id
    simp only [Query.admits, hbefore.admits, hleader.admits, hbehind.admits]
  lead := hleader.lead

/-- Taking the matches of a clause changes nothing that can be seen of it. -/
lemma keeps_vector {clause next : VectorClause} (h : clause.Sound)
    (hnext : next = clause ∨ next = clause.materialize) :
    (vector clause).Keeps (vector next) := by
  rcases hnext with rfl | rfl
  · exact .refl h
  · refine ⟨h.materialize, ?_, clause.upcoming_materialize⟩
    funext id
    simp only [Query.admits, clause.documents_materialize]

/-! ## Narrowing -/

/-- What is kept of a list in ascending order is in ascending order. -/
lemma pairwise_filter {ids : List UInt64} (h : ids.Pairwise (· ≤ ·)) (p : UInt64 → Bool) :
    (ids.filter p).Pairwise (· ≤ ·) :=
  h.sublist List.filter_sublist

mutual

/-- **Narrowing** keeps what the query matches of an ascending list, repeats included, and the query
goes on matching what it has matched.

**Proof sketch.** Recursion on the query. An intersection narrows the list by the parts before the
leader, then by the leader and then by the parts behind it, and stops when nothing is left. -/
theorem narrow_eq : ∀ {query : Query} {ids : List UInt64}, query.Sound → ids.Pairwise (· ≤ ·) →
    (query.narrow ids).1 = ids.filter query.admits ∧ query.Keeps (query.narrow ids).2
  | posting _, _, h, hids => ⟨intersect_eq_filter hids h, .refl h⟩
  | vector _, _, h, hids => by
    obtain ⟨hkept, hnext⟩ := VectorClause.Sound.narrow_eq h hids
    exact ⟨hkept, keeps_vector h hnext⟩
  | boost factor inner, ids, h, hids => by
    obtain ⟨hkept, hnext⟩ := @narrow_eq inner ids h hids
    exact ⟨hkept, hnext.boost factor⟩
  | everything, _, h, _ => ⟨(List.filter_eq_self.mpr fun _ _ => rfl).symm, .refl h⟩
  | both before leader behind, ids, h, hids => by
    obtain ⟨hbefore, hleader, hbehind⟩ := h
    obtain ⟨hkept, hnext⟩ := @narrowAll_eq before ids hbefore hids
    have hall : ids.filter (both before leader behind).admits =
        ((ids.filter (admitsAll before)).filter leader.admits).filter (admitsAll behind) := by
      rw [List.filter_filter, List.filter_filter]
      refine List.filter_congr fun id _ => ?_
      rw [admits, Bool.and_comm, Bool.and_comm (admitsAll before id), ← Bool.and_assoc]
    rw [narrow]
    generalize narrowAll before ids = first at hkept hnext ⊢
    obtain ⟨rest, before'⟩ := first
    simp only at hkept hnext ⊢
    split
    · next hempty =>
      rw [List.isEmpty_iff] at hempty
      refine ⟨?_, .both hnext (.refl hleader) (.refl hbehind)⟩
      rw [hall, ← hkept, hempty]
      rfl
    · have hsorted : rest.Pairwise (· ≤ ·) := hkept ▸ pairwise_filter hids _
      obtain ⟨hkept', hnext'⟩ := @narrow_eq leader rest hleader hsorted
      obtain ⟨hkept'', hnext''⟩ := @narrowAll_eq behind (leader.narrow rest).1 hbehind
        (hkept' ▸ pairwise_filter hsorted _)
      refine ⟨?_, .both hnext hnext' hnext''⟩
      rw [hall, ← hkept, ← hkept', ← hkept'']

/-- Narrowing by several queries keeps what all of them match. -/
lemma narrowAll_eq : ∀ {parts : List Query} {ids : List UInt64}, AllSound parts →
    ids.Pairwise (· ≤ ·) →
      (narrowAll parts ids).1 = ids.filter (admitsAll parts) ∧
        KeepsAll parts (narrowAll parts ids).2
  | [], _, h, _ => ⟨(List.filter_eq_self.mpr fun _ _ => rfl).symm, .refl h⟩
  | part :: parts, ids, h, hids => by
    rw [narrowAll]
    split
    · next hempty =>
      rw [List.isEmpty_iff] at hempty
      subst hempty
      exact ⟨rfl, .refl h⟩
    · obtain ⟨hkept, hnext⟩ := @narrow_eq part ids h.1 hids
      obtain ⟨hkept', hnext'⟩ := @narrowAll_eq parts (part.narrow ids).1 h.2
        (hkept ▸ pairwise_filter hids _)
      refine ⟨?_, .cons hnext hnext'⟩
      rw [hkept', hkept, List.filter_filter]
      exact List.filter_congr fun id _ => by rw [admitsAll, Bool.and_comm]

end

/-! ## Scoring -/

mutual

/-- **Scoring** changes nothing that can be seen of a query: it takes the matches of vector clauses
at most. -/
theorem keeps_score : ∀ {query : Query}, query.Sound → ∀ (ids : List UInt64) (factor : Single)
    (slots : List Single), query.Keeps (query.score ids factor slots).2
  | posting _, h, _, _, _ => .refl h
  | vector _, h, ids, factor, slots =>
    keeps_vector h (VectorClause.Sound.score_cases h ids factor slots)
  | boost own inner, h, ids, factor, slots =>
    (@keeps_score inner h ids (factor * own) slots).boost own
  | everything, h, _, _, _ => .refl h
  | both _ _ _, h, _, _, _ =>
    .both (keepsAll_addScores h.1 _ _ _) (keeps_score h.2.1 _ _ _) (keepsAll_addScores h.2.2 _ _ _)

/-- Taking the scores of parts keeps what they match. -/
lemma keepsAll_addScores : ∀ {parts : List Query}, AllSound parts → ∀ (ids : List UInt64)
    (factor : Single) (sums : Sums), KeepsAll parts (addScores parts ids factor sums).2
  | [], h, _, _, _ => .refl h
  | _ :: _, h, _, _, _ => .cons (keeps_score h.1 _ _ _) (keepsAll_addScores h.2 _ _ _)

end

/-! ## Portions -/

/-- What leads a sound query comes in ascending order, each document once. -/
lemma pairwise_lead : ∀ {query : Query}, query.Sound → query.lead.Pairwise (· < ·)
  | posting list, h => List.Pairwise.sublist (List.drop_sublist _ _) h
  | vector clause, h => by
    obtain ⟨found, handedOut, _, hdocuments, hupcoming⟩ := VectorClause.Sound.exists_materialized h
    rw [lead, hupcoming, ← hdocuments]
    exact h.ascending.sublist (List.drop_sublist _ _)
  | boost _ inner, h => @pairwise_lead inner h
  | everything, _ => .nil
  | both _ leader _, h => @pairwise_lead leader h.2.1

/-- What a sound query has ahead comes in ascending order, each document once. -/
lemma pairwise_upcoming {query : Query} (h : query.Sound) : query.upcoming.Pairwise (· < ·) :=
  (pairwise_lead h).sublist List.filter_sublist

/-- **One round** takes a portion of what the leading leaf has ahead, and leaves of it what the
query matches. It is the last one if the leading leaf has nothing ahead.

**Proof sketch.** Recursion on the query. A leaf takes its next portion, and an intersection narrows
the portion of its leader by the other parts. -/
theorem round_eq {room : Nat} : ∀ {query : Query}, query.Sound →
    (query.round room).1.ids = (query.lead.take room).filter query.admits ∧
      (query.round room).1.isLast = (query.lead.take room).isEmpty ∧
      (query.round room).2.Sound ∧ (query.round room).2.admits = query.admits ∧
      (query.round room).2.lead = query.lead.drop room
  | posting list, h => by
    obtain ⟨hportion, hids, hrest⟩ := list.fill_eq room
    have hself : (list.upcoming.take room).filter (posting list).admits =
        list.upcoming.take room := by
      refine List.filter_eq_self.mpr fun id hid => ?_
      rw [admits, List.contains_iff_mem]
      exact List.mem_of_mem_drop (List.mem_of_mem_take hid)
    refine ⟨?_, rfl, h, rfl, hrest⟩
    rw [lead, hself]
    exact hportion
  | vector clause, h => by
    obtain ⟨hportion, hsound, hdocuments, hrest⟩ := VectorClause.Sound.fill_eq h room
    have hself : (clause.upcoming.take room).filter (vector clause).admits =
        clause.upcoming.take room := by
      obtain ⟨found, handedOut, _, hheld, hupcoming⟩ := VectorClause.Sound.exists_materialized h
      refine List.filter_eq_self.mpr fun id hid => ?_
      rw [hupcoming, ← hheld] at hid
      rw [admits, List.contains_iff_mem]
      exact List.mem_of_mem_drop (List.mem_of_mem_take hid)
    refine ⟨?_, ?_, hsound, ?_, hrest⟩
    · rw [lead, hself]
      exact hportion
    · rw [lead, ← hportion]
      rfl
    · funext id
      show (clause.fill room).2.documents.contains id = clause.documents.contains id
      rw [hdocuments]
  | boost factor inner, h => by
    obtain ⟨hids, hlast, hsound, hadmits, hlead⟩ := @round_eq room inner h
    exact ⟨hids, hlast, hsound, funext fun id => congrFun hadmits id, hlead⟩
  | everything, h => ⟨by simp [round, lead], by simp [round, lead], h, rfl, by simp [round, lead]⟩
  | both before leader behind, h => by
    obtain ⟨hids, hlast, hsound, hadmits, hlead⟩ := @round_eq room leader h.2.1
    have hall : (leader.lead.take room).filter (both before leader behind).admits =
        (((leader.lead.take room).filter leader.admits).filter (admitsAll before)).filter
          (admitsAll behind) := by
      rw [List.filter_filter, List.filter_filter]
      refine List.filter_congr fun id _ => ?_
      rw [admits, Bool.and_comm, Bool.and_assoc]
    rw [round, lead, hall, ← hids]
    generalize leader.round room = first at hids hlast hsound hadmits hlead ⊢
    obtain ⟨result, leader'⟩ := first
    simp only at hids hlast hsound hadmits hlead ⊢
    have hadmits' : ∀ {before' behind' : List Query}, KeepsAll before before' →
        KeepsAll behind behind' →
          (both before' leader' behind').admits = (both before leader behind).admits := by
      intro before' behind' hbefore hbehind
      funext id
      simp only [admits, hbefore.admits, hadmits, hbehind.admits]
    split
    · next hempty =>
      rw [List.isEmpty_iff] at hempty
      refine ⟨by rw [hempty]; rfl, hlast, ⟨h.1, hsound, h.2.2⟩,
        hadmits' (.refl h.1) (.refl h.2.2), hlead⟩
    · have hsorted : result.ids.Pairwise (· ≤ ·) := by
        rw [hids]
        refine pairwise_filter ?_ _
        exact ((pairwise_lead h.2.1).sublist (List.take_sublist _ _)).imp UInt64.le_of_lt
      obtain ⟨hkept, hnext⟩ := @narrowAll_eq before result.ids h.1 hsorted
      obtain ⟨hkept', hnext'⟩ := @narrowAll_eq behind (narrowAll before result.ids).1 h.2.2
        (hkept ▸ pairwise_filter hsorted _)
      refine ⟨?_, hlast, ⟨hnext.sound, hsound, hnext'.sound⟩, hadmits' hnext hnext', hlead⟩
      rw [← hkept, ← hkept']

/-- **A portion** comes from the beginning of what the query has ahead, and it is empty only if
there is nothing ahead.

**Proof sketch.** By induction on the rounds. A round of which nothing is left has taken documents
that the query does not match. -/
theorem fill_eq {room : Nat} (hroom : 0 < room) {query : Query} (h : query.Sound) :
    (query.fill room).2.Sound ∧ (query.fill room).2.admits = query.admits ∧
      (query.fill room).1 ++ (query.fill room).2.upcoming = query.upcoming ∧
      ((query.fill room).1 = [] → query.upcoming = []) := by
  have hsplit : ∀ query : Query, query.Sound → query.upcoming =
      (query.round room).1.ids ++ (query.round room).2.upcoming := by
    intro query h
    obtain ⟨hids, _, _, hadmits, hlead⟩ := @round_eq room query h
    rw [hids, upcoming, upcoming, hadmits, hlead, ← List.filter_append, List.take_append_drop]
  fun_induction fill room query with
  | case1 query result hlast hempty ih =>
    obtain ⟨_, _, hsound, hadmits, _⟩ := @round_eq room query h
    obtain ⟨hnext, hsame, happend, hnil⟩ := ih hsound
    have hupcoming : query.upcoming = result.2.upcoming := by
      rw [hsplit query h, List.isEmpty_iff.mp hempty]
      rfl
    exact ⟨hnext, hsame.trans hadmits, hupcoming ▸ happend,
      fun hrest => hupcoming.trans (hnil hrest)⟩
  | case2 query result hlast hempty =>
    obtain ⟨_, _, hsound, hadmits, _⟩ := @round_eq room query h
    refine ⟨hsound, hadmits, (hsplit query h).symm, fun hnil => ?_⟩
    exact absurd (List.isEmpty_iff.mpr hnil) hempty
  | case3 query result hlast =>
    obtain ⟨_, hisLast, hsound, hadmits, hlead⟩ := @round_eq room query h
    have hnil : query.lead = [] := by
      rw [Bool.not_eq_false, show result.1.isLast = _ from hisLast, List.isEmpty_iff] at hlast
      rcases List.take_eq_nil_iff.mp hlast with hzero | hnil
      · omega
      · exact hnil
    have hupcoming : query.upcoming = [] := by rw [upcoming, hnil, List.filter_nil]
    refine ⟨hsound, hadmits, ?_, fun _ => hupcoming⟩
    rw [hupcoming, upcoming, show result.2.lead = _ from hlead, hnil, List.drop_nil]
    rfl

/-- A query after some rounds. -/
def afterRounds (room : Nat) : Nat → Query → Query
  | 0, query => query
  | count + 1, query => afterRounds room count (query.round room).2

/-- **A portion comes to an end**: all rounds but the last have left nothing, and there are no more
of them than the leading leaf has documents.

**Proof sketch.** Induction along the rounds of the portion. -/
theorem exists_rounds (room : Nat) (query : Query) : ∃ count, count ≤ query.remaining ∧
    (∀ earlier, earlier < count → ((afterRounds room earlier query).round room).1.ids = []) ∧
    (((afterRounds room count query).round room).1.isLast = true ∧ (query.fill room).1 = [] ∨
      (query.fill room).1 = ((afterRounds room count query).round room).1.ids) ∧
    (query.fill room).2 = ((afterRounds room count query).round room).2 := by
  fun_induction fill room query with
  | case1 query result hlast hempty ih =>
    obtain ⟨count, hle, hearlier, hends, hnext⟩ := ih
    have hless : result.2.remaining < query.remaining := remaining_round_lt room hlast
    refine ⟨count + 1, by omega, fun earlier hlt => ?_, hends, hnext⟩
    cases earlier with
    | zero => exact List.isEmpty_iff.mp hempty
    | succ earlier => exact hearlier earlier (Nat.lt_of_succ_lt_succ hlt)
  | case2 query result hlast hempty =>
    exact ⟨0, Nat.zero_le _, fun _ hlt => absurd hlt (Nat.not_lt_zero _), .inr rfl, rfl⟩
  | case3 query result hlast =>
    refine ⟨0, Nat.zero_le _, fun _ hlt => absurd hlt (Nat.not_lt_zero _), .inl ⟨?_, rfl⟩, rfl⟩
    exact Bool.eq_true_of_not_eq_false hlast

end Proximity.Query

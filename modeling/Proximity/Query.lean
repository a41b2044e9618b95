import Proximity.Query.VectorClause

set_option autoImplicit false
set_option relaxedAutoImplicit false

/-!
# Queries

A query is a tree of posting lists and vector clauses, joined by intersection and scaled by boosts.
It hands out the documents that it matches in portions, narrows lists of documents to those that it
matches, and scores documents.

## Design

In an intersection one part leads: its documents are narrowed by all other parts in turn. The first
part that matches a known set of documents leads. The leader of a leader is again one part, so there
is a single leaf from which the documents come, and one round takes a portion of that leaf and
narrows it on the way up. A portion that narrows to nothing is followed by the next round.

## Main definitions

* `Proximity.Query` — the trees.
* `Proximity.Query.ofParts` — the intersection of some queries.
* `Proximity.Query.fill` — the next portion of documents.
* `Proximity.Query.narrow` — the members of a list that the query matches.
* `Proximity.Query.score` — the scores of some documents.

## Main results

* `Proximity.Query.remaining_round_lt` — a round that is not the last one leaves fewer documents in
  the leading leaf, which makes a portion come to an end.
-/

namespace Proximity

/-- A query. -/
inductive Query
  /-- A posting list. -/
  | posting (posting : Posting)
  /-- A vector clause. -/
  | vector (clause : VectorClause)
  /-- A query whose scores are multiplied by a factor. -/
  | boost (factor : Single) (inner : Query)
  /-- The intersection of no queries. -/
  | everything
  /-- The intersection of the parts before the leader, the leader, and the parts behind it. -/
  | both (before : List Query) (leader : Query) (behind : List Query)

namespace Query

/-! ## Shape -/

/-- Whether the query matches a known set of documents. -/
def isBounded : Query → Bool
  | posting _ => true
  | vector _ => true
  | boost _ inner => inner.isBounded
  | everything => false
  | both before leader behind => anyBounded before || leader.isBounded || anyBounded behind
where
  /-- Whether one of the parts matches a known set of documents. -/
  anyBounded : List Query → Bool
    | [] => false
    | part :: parts => part.isBounded || anyBounded parts

/-- The parts before the first one that matches a known set of documents, that part, and those
behind it. -/
def splitAtBounded : List Query → Option (List Query × Query × List Query)
  | [] => none
  | part :: parts =>
    if part.isBounded then some ([], part, parts)
    else (splitAtBounded parts).map fun (before, leader, behind) => (part :: before, leader, behind)

/-- The intersection of some queries. The first one that matches a known set of documents leads, or
else the first one. -/
def ofParts (parts : List Query) : Query :=
  match splitAtBounded parts, parts with
  | some (before, leader, behind), _ => .both before leader behind
  | none, [] => .everything
  | none, leader :: behind => .both [] leader behind

/-- Whether the documents come in the order of their scores already. -/
def skipsSorting : Query → Bool
  | posting _ => false
  | vector clause => clause.isStandalone
  | boost factor inner => Single.zero.lt factor && inner.skipsSorting
  | everything => false
  | both _ _ _ => false

/-! ## Narrowing -/

mutual

/-- The members of an ascending list that the query matches. -/
def narrow : Query → List UInt64 → List UInt64 × Query
  | posting list, ids => (list.narrow ids, posting list)
  | vector clause, ids =>
    let (ids, clause) := clause.narrow ids
    (ids, vector clause)
  | boost factor inner, ids =>
    let (ids, inner) := inner.narrow ids
    (ids, boost factor inner)
  | everything, ids => (ids, everything)
  | both before leader behind, ids =>
    let (ids, before) := narrowAll before ids
    if ids.isEmpty then (ids, both before leader behind)
    else
      let (ids, leader) := leader.narrow ids
      let (ids, behind) := narrowAll behind ids
      (ids, both before leader behind)

/-- The members of an ascending list that all parts match; once none are left, no further part is
asked. -/
def narrowAll : List Query → List UInt64 → List UInt64 × List Query
  | [], ids => (ids, [])
  | part :: parts, ids =>
    if ids.isEmpty then (ids, part :: parts)
    else
      let (ids, part) := part.narrow ids
      let (ids, parts) := narrowAll parts ids
      (ids, part :: parts)

end

/-! ## Portions -/

/-- What one round of a query gives. -/
structure Round where
  /-- The documents that are left after narrowing. -/
  ids : List UInt64
  /-- Whether the leading leaf had no more documents. -/
  isLast : Bool

/-- One round: a portion of the leading leaf, narrowed by all other parts on the way up. -/
def round (room : Nat) : Query → Round × Query
  | posting list =>
    let (ids, list) := list.fill room
    ({ ids, isLast := ids.isEmpty }, posting list)
  | vector clause =>
    let (ids, clause) := clause.fill room
    ({ ids, isLast := ids.isEmpty }, vector clause)
  | boost factor inner =>
    let (result, inner) := inner.round room
    (result, boost factor inner)
  | everything => ({ ids := [], isLast := true }, everything)
  | both before leader behind =>
    let (result, leader) := leader.round room
    if result.ids.isEmpty then (result, both before leader behind)
    else
      let (ids, before) := narrowAll before result.ids
      let (ids, behind) := narrowAll behind ids
      ({ result with ids }, both before leader behind)

/-- The number of documents that the leading leaf has not handed out. -/
def remaining : Query → Nat
  | posting list => list.remaining
  | vector clause => clause.remaining
  | boost _ inner => inner.remaining
  | everything => 0
  | both _ leader _ => leader.remaining

/-- A round that is not the last one leaves fewer documents in the leading leaf. -/
theorem remaining_round_lt (room : Nat) :
    ∀ {query : Query}, (query.round room).1.isLast = false →
      (query.round room).2.remaining < query.remaining
  | posting list, h => by
    refine Posting.remaining_fill_lt fun hnil => ?_
    simp [round, hnil] at h
  | vector clause, h => by
    refine VectorClause.remaining_fill_lt fun hnil => ?_
    simp [round, hnil] at h
  | boost factor inner, h => @remaining_round_lt room inner h
  | everything, h => by simp [round] at h
  | both before leader behind, h => by
    have ih := @remaining_round_lt room leader
    unfold round at h ⊢
    simp only at h ⊢
    split at h
    · next hempty =>
      simp only [hempty, if_true]
      exact ih h
    · next hempty =>
      simp only [hempty]
      exact ih h

/-- The next documents, at most `room`: rounds until one leaves documents or is the last. -/
def fill (room : Nat) (query : Query) : List UInt64 × Query :=
  let result := query.round room
  if _ : result.1.isLast = false then
    if result.1.ids.isEmpty then fill room result.2 else (result.1.ids, result.2)
  else ([], result.2)
termination_by query.remaining
decreasing_by exact remaining_round_lt room (by assumption)

/-- A portion that is not empty leaves fewer documents. -/
theorem remaining_fill_lt (room : Nat) (query : Query) (h : (query.fill room).1 ≠ []) :
    (query.fill room).2.remaining < query.remaining := by
  fun_induction fill room query with
  | case1 query result hlast _ ih =>
    have hround : result.2.remaining < query.remaining := remaining_round_lt room hlast
    exact Nat.lt_trans (ih h) hround
  | case2 query result hlast _ => exact remaining_round_lt room hlast
  | case3 query result hlast => simp at h

/-- All documents that have not been handed out, taken in portions of at most `room`. -/
def drain (room : Nat) (query : Query) : List UInt64 × Query :=
  let portion := query.fill room
  if _ : portion.1 = [] then portion
  else
    let rest := drain room portion.2
    (portion.1 ++ rest.1, rest.2)
termination_by query.remaining
decreasing_by exact remaining_fill_lt room query (by assumption)

/-! ## Scores -/

/-- The sums of the scores of some parts, and the slots into which the next part writes its
scores. -/
structure Sums where
  /-- The sums so far. -/
  totals : List Single
  /-- The slots, which still hold the scores of the part before. -/
  scratch : List Single

/-- The sums of no parts. -/
def Sums.blank (count : Nat) : Sums where
  totals := List.replicate count .zero
  scratch := List.replicate count .zero

/-- The sums with what has been written into the slots. -/
def Sums.add (sums : Sums) (scratch : List Single) : Sums where
  totals := sums.totals.zipWith (· + ·) scratch
  scratch := scratch

mutual

/-- The slots after the scores of some documents have been written into them; documents that the
query does not match score zero. Slots without a document stay as they are, unless the query is a
vector clause without results. -/
def score : Query → List UInt64 → Single → List Single → List Single × Query
  | posting list, ids, factor, slots =>
    (overwrite (ids.map (list.score factor)) slots, posting list)
  | vector clause, ids, factor, slots =>
    let (slots, clause) := clause.score ids factor slots
    (slots, vector clause)
  | boost own inner, ids, factor, slots =>
    let (slots, inner) := inner.score ids (factor * own) slots
    (slots, boost own inner)
  | everything, ids, _, slots => (overwrite (ids.map fun _ => .zero) slots, everything)
  | both before leader behind, ids, factor, slots =>
    let count := min ids.length slots.length
    let (sums, before) := addScores before (ids.take count) factor (.blank count)
    let (scratch, leader) := leader.score (ids.take count) factor sums.scratch
    let (sums, behind) := addScores behind (ids.take count) factor (sums.add scratch)
    (overwrite sums.totals slots, both before leader behind)

/-- The sums with the scores of some more parts, in their order. All parts write into the same
slots, each over the scores of the part before. -/
def addScores : List Query → List UInt64 → Single → Sums → Sums × List Query
  | [], _, _, sums => (sums, [])
  | part :: parts, ids, factor, sums =>
    let (scratch, part) := part.score ids factor sums.scratch
    let (sums, parts) := addScores parts ids factor (sums.add scratch)
    (sums, part :: parts)

end

end Query

end Proximity

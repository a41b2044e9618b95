import Proximity.Query.Posting
import Proximity.Search.Stream

set_option autoImplicit false
set_option relaxedAutoImplicit false

/-!
# Vector clauses

A vector clause takes part in a query through a nearest neighbor search. A clause that stands alone
hands out documents in the order of the search. A clause that is combined with others takes all
results of the search when it is first used, because the others need ascending document numbers.

## Main definitions

* `Proximity.collapse` — a list in which each run of one document has become one entry with the
  least distance.
* `Proximity.compact` — the same in the place of the list.
* `Proximity.VectorClause` — a clause.
* `Proximity.VectorClause.fill`, `Proximity.VectorClause.narrow`, `Proximity.VectorClause.score` —
  what a query asks of it.
-/

namespace Proximity

/-- The entries behind `last`, where a run of entries with one number becomes one entry with the
least of their distances. -/
def collapseFrom (last : Scored) : List Scored → List Scored
  | [] => [last]
  | entry :: rest =>
    if entry.1 = last.1 then
      collapseFrom (if entry.2.lt last.2 then (last.1, entry.2) else last) rest
    else last :: collapseFrom entry rest

/-- A list in which each run of entries with one number has become one entry with the least of
their distances. -/
def collapse : List Scored → List Scored
  | [] => []
  | entry :: rest => collapseFrom entry rest

/-- One step of a pass that collapses a list in its own place: the entry at `place` is joined to the
last one that has been kept, if it is of the same document, or else it is written behind it. -/
def compactAt (state : Array Scored × Nat) (place : Nat) : Array Scored × Nat :=
  match state.1[place]?, state.1[state.2]? with
  | some entry, some last =>
    if entry.1 = last.1 then
      (if entry.2.lt last.2 then state.1.setIfInBounds state.2 (last.1, entry.2) else state.1,
        state.2)
    else (state.1.setIfInBounds (state.2 + 1) entry, state.2 + 1)
  | _, _ => state

/-- The list collapsed in its own place, and the number of entries at the beginning that have been
kept. -/
def compact (entries : Array Scored) : Array Scored × Nat :=
  if entries.isEmpty then (entries, 0)
  else
    let state := (List.range' 1 (entries.size - 1)).foldl compactAt (entries, 0)
    (state.1, state.2 + 1)

/-- How a vector clause takes part in a query. -/
inductive ClauseMode
  /-- It is the whole query; the entries handed out last are kept for their scores. -/
  | standalone (last : List Scored)
  /-- It is combined with others, and has not been used yet. -/
  | untouched
  /-- It is combined with others, and has taken its matches, in ascending order. -/
  | materialized (found : List Scored) (handedOut : Nat)

/-- A nearest neighbor search as a part of a query. -/
structure VectorClause where
  /-- The search. -/
  search : ResultStream
  /-- How the clause takes part in the query. -/
  mode : ClauseMode
  /-- Whether the search had no results when the clause was made. -/
  isEmpty : Bool

namespace VectorClause

/-- A clause that is the whole query. -/
def standalone (search : ResultStream) : VectorClause where
  search := search
  mode := .standalone []
  isEmpty := search.isEmpty

/-- A clause that is combined with others. -/
def composed (search : ResultStream) : VectorClause where
  search := search
  mode := .untouched
  isEmpty := search.isEmpty

/-- Whether the clause is the whole query. -/
def isStandalone (clause : VectorClause) : Bool :=
  match clause.mode with
  | .standalone _ => true
  | _ => false

/-- A candidate as a document with its distance. -/
def entryOf (candidate : Candidate) : Scored :=
  (candidate.id.raw, candidate.distance)

/-- Whether a document with its distance comes before another: lower numbers first, and of equal
numbers the lower distance. -/
def notAfter (a b : Scored) : Bool :=
  a.1 < b.1 || (a.1 == b.1 && a.2.rank ≤ b.2.rank)

/-- The number of results that a clause takes from its search at a time. -/
def drainRoom : Nat := 256

/-- The clause after it has taken its matches, if it is combined with others. -/
def materialize (clause : VectorClause) : VectorClause :=
  match clause.mode with
  | .untouched =>
    if clause.isEmpty then { clause with mode := .materialized [] 0 }
    else
      let (results, search) := clause.search.drain drainRoom
      { clause with
        search
        mode := .materialized (collapse ((results.map entryOf).mergeSort notAfter)) 0 }
  | _ => clause

/-- The next documents, at most `room`. -/
def fill (clause : VectorClause) (room : Nat) : List UInt64 × VectorClause :=
  if clause.isEmpty then ([], clause)
  else
    let clause := clause.materialize
    match clause.mode with
    | .standalone _ =>
      let (portion, search) := clause.search.fill room room
      let last := portion.map entryOf
      (last.map Prod.fst, { clause with search, mode := .standalone last })
    | .materialized found handedOut =>
      let portion := ((found.drop handedOut).take room).map Prod.fst
      (portion, { clause with mode := .materialized found (handedOut + portion.length) })
    | .untouched => ([], clause)

/-- The members of an ascending list that the clause matches. A clause that stands alone knows only
the documents that it handed out last. -/
def narrow (clause : VectorClause) (ids : List UInt64) : List UInt64 × VectorClause :=
  if clause.isEmpty then ([], clause)
  else
    let clause := clause.materialize
    match clause.mode with
    | .standalone last => (ids.filter fun id => (last.map Prod.fst).contains id, clause)
    | .materialized found _ => (intersect ids (found.map Prod.fst), clause)
    | .untouched => ([], clause)

/-- The entry at a place, if it is of this document, or else the first entry that is. -/
def lastEntry (last : List Scored) (place : Nat) (id : UInt64) : Option Single :=
  match last[place]? with
  | some entry => if entry.1 = id then some entry.2 else lookup last id
  | none => lookup last id

/-- The scores of some documents, from place `place` of the list on, from the entries handed out
last. -/
def lastScores (clause : VectorClause) (last : List Scored) (boost : Single) (place : Nat) :
    List UInt64 → List Single
  | [] => []
  | id :: ids =>
    let score := match lastEntry last place id with
      | some distance => clause.search.score distance * boost
      | none => .zero
    score :: lastScores clause last boost (place + 1) ids

/-- The score of a document among the matches of a clause. -/
def foundScore (clause : VectorClause) (found : List Scored) (boost : Single) (id : UInt64) :
    Single :=
  match bisect found id with
  | some distance => clause.search.score distance * boost
  | none => .zero

/-- The slots after the scores of some documents have been written into them; a document that the
clause does not match scores zero. A clause without results clears all slots. -/
def score (clause : VectorClause) (ids : List UInt64) (boost : Single) (slots : List Single) :
    List Single × VectorClause :=
  if clause.isEmpty then (slots.map fun _ => .zero, clause)
  else
    let clause := clause.materialize
    match clause.mode with
    | .standalone last => (overwrite (clause.lastScores last boost 0 ids) slots, clause)
    | .materialized found _ => (overwrite (ids.map (clause.foundScore found boost)) slots, clause)
    | .untouched => (slots, clause)

/-- The number of documents that the clause has not handed out. -/
def remaining (clause : VectorClause) : Nat :=
  match clause.mode with
  | .materialized found handedOut => found.length - handedOut
  | _ => clause.search.remaining

/-! ## Portions end -/

/-- Collapsing adds no entry to the last one and those behind it. -/
theorem length_collapseFrom_le (last : Scored) (list : List Scored) :
    (collapseFrom last list).length ≤ list.length + 1 := by
  induction list generalizing last with
  | nil => simp [collapseFrom]
  | cons entry rest ih =>
    unfold collapseFrom
    split
    · exact Nat.le_succ_of_le (ih _)
    · simpa using ih entry

/-- Collapsing adds no entry. -/
theorem length_collapse_le (list : List Scored) : (collapse list).length ≤ list.length := by
  cases list with
  | nil => simp [collapse]
  | cons entry rest => simpa [collapse] using length_collapseFrom_le entry rest

/-- Taking the matches leaves no more documents than the search had. -/
theorem remaining_materialize_le (clause : VectorClause) :
    clause.materialize.remaining ≤ clause.remaining := by
  unfold materialize
  split
  · next hmode =>
    split
    · simp [remaining]
    · have hdrain := ResultStream.length_drain_le drainRoom clause.search
      have hcollapse := length_collapse_le
        (((clause.search.drain drainRoom).1.map entryOf).mergeSort notAfter)
      simp only [List.length_mergeSort, List.length_map] at hcollapse
      simp only [remaining, hmode]
      omega
  · exact Nat.le_refl _

/-- A portion that is not empty leaves fewer documents.

**Proof sketch.** By the mode: a portion is the next one of the search or of the list that it has
been put in. -/
theorem remaining_fill_lt {clause : VectorClause} {room : Nat} (h : (clause.fill room).1 ≠ []) :
    (clause.fill room).2.remaining < clause.remaining := by
  unfold fill at h ⊢
  split at h
  · simp at h
  · next hempty =>
    simp only [hempty]
    refine Nat.lt_of_lt_of_le ?_ (remaining_materialize_le clause)
    generalize clause.materialize = clause at h ⊢
    cases hmode : clause.mode with
    | standalone last =>
      simp only [hmode, ne_eq, List.map_eq_nil_iff] at h
      have hlt := ResultStream.remaining_fill_lt h
      simpa [remaining, hmode] using hlt
    | untouched => simp [hmode] at h
    | materialized found handedOut =>
      simp only [hmode] at h
      have hpos := List.length_pos_iff.mpr h
      simp only [List.length_map, List.length_take, List.length_drop] at hpos
      simp only [Bool.false_eq_true, if_false, remaining, hmode, List.length_map, List.length_take,
        List.length_drop]
      omega

end VectorClause

end Proximity

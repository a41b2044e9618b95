import Proximity.Single

set_option autoImplicit false
set_option relaxedAutoImplicit false

/-!
# Posting lists

A posting list holds document numbers in ascending order, each with a score, and hands them out in
portions. The score of a document is found by halving the list, and scores are written into slots.

## Main definitions

* `Proximity.Scored` — a document number with a score or a distance.
* `Proximity.intersect` — the members of one ascending list that are in another.
* `Proximity.lookup`, `Proximity.bisect` — the first entry of a document, and the one that halving
  an ascending list leads to.
* `Proximity.overwrite` — slots into which values have been written.
* `Proximity.Posting` — a posting list, and how much of it has been handed out.
* `Proximity.Posting.ofScored` — the posting list for some scored documents.
-/

namespace Proximity

/-- A document number with a score or a distance. -/
abbrev Scored := UInt64 × Single

/-- The ascending `ids` that are among the ascending `found`, from a walk along both lists that
stops where the found ones end. -/
def intersect : (ids found : List UInt64) → List UInt64
  | [], _ => []
  | id :: ids, found =>
    match found.dropWhile (· < id) with
    | [] => []
    | first :: rest =>
      if first = id then id :: intersect ids (first :: rest) else intersect ids (first :: rest)

/-- What the first entry of a document says, if there is one. -/
def lookup (list : List Scored) (id : UInt64) : Option Single :=
  (list.find? fun entry => entry.1 = id).map Prod.snd

/-- What an ascending list says of a document, found by halving the list. -/
def bisect (list : List Scored) (id : UInt64) : Option Single :=
  match _ : list.drop (list.length / 2) with
  | [] => none
  | middle :: above =>
    if middle.1 = id then some middle.2
    else if middle.1 < id then bisect above id
    else bisect (list.take (list.length / 2)) id
termination_by list.length
decreasing_by
  all_goals
    have hlength := congrArg List.length (by assumption : list.drop (list.length / 2) = _)
    simp only [List.length_drop, List.length_cons, List.length_take] at hlength ⊢
    omega

/-- The slots after some values have been written into the first of them, as far as there are slots.
The other slots stay as they are. -/
def overwrite : (values slots : List Single) → List Single
  | value :: values, _ :: slots => value :: overwrite values slots
  | _, slots => slots

/-- A posting list. -/
structure Posting where
  /-- The documents in ascending order, each with its score. -/
  entries : List Scored
  /-- The number of documents that have been handed out. -/
  handedOut : Nat

namespace Posting

/-- Whether a scored document comes before another: lower numbers first, and of equal numbers the
higher score. -/
def notAfter (a b : Scored) : Bool :=
  a.1 < b.1 || (a.1 == b.1 && b.2.rank ≤ a.2.rank)

/-- A list without the entries that have the number of the entry before them. -/
def dropRepeats : List Scored → List Scored
  | [] => []
  | [entry] => [entry]
  | entry :: next :: rest =>
    if entry.1 = next.1 then dropRepeats (entry :: rest) else entry :: dropRepeats (next :: rest)
termination_by list => list.length

/-- The posting list for some scored documents, in any order; of several scores for one document
the highest counts. -/
def ofScored (entries : List Scored) : Posting where
  entries := dropRepeats (entries.mergeSort notAfter)
  handedOut := 0

/-- The posting list for some documents, each with score one. -/
def ofIds (ids : List UInt64) : Posting :=
  ofScored (ids.map fun id => (id, .one))

/-- The documents of a posting list. -/
def ids (posting : Posting) : List UInt64 :=
  posting.entries.map Prod.fst

/-- The next documents, at most `room`. -/
def fill (posting : Posting) (room : Nat) : List UInt64 × Posting :=
  let portion := (posting.ids.drop posting.handedOut).take room
  (portion, { posting with handedOut := posting.handedOut + portion.length })

/-- The members of an ascending list that are in the posting list. -/
def narrow (posting : Posting) (ids : List UInt64) : List UInt64 :=
  intersect ids posting.ids

/-- The score of a document, or zero if it is not in the list. -/
def score (posting : Posting) (boost : Single) (id : UInt64) : Single :=
  match bisect posting.entries id with
  | some score => score * boost
  | none => .zero

/-- The number of documents that have not been handed out. -/
def remaining (posting : Posting) : Nat :=
  posting.entries.length - posting.handedOut

/-- A portion that is not empty leaves fewer documents. -/
theorem remaining_fill_lt {posting : Posting} {room : Nat} (h : (posting.fill room).1 ≠ []) :
    (posting.fill room).2.remaining < posting.remaining := by
  have hpos := List.length_pos_iff.mpr h
  simp only [fill, ids, List.length_take, List.length_drop, List.length_map, remaining] at hpos ⊢
  omega

end Posting

end Proximity

import Proximity.Graph.Candidate

set_option autoImplicit false
set_option relaxedAutoImplicit false

/-!
# The selection of neighbors

A node keeps a limited number of neighbors. Some are pinned and always kept. Of the others, a
candidate is kept if it is nearer to the node than to every neighbor that is kept already, so that
neighbors lie in different directions, and where room remains the nearest of the candidates passed
over are kept as well.

## Main definitions

* `Proximity.Selection.isDiverse` — whether a candidate is nearer to the node than to those kept.
* `Proximity.Selection.sweep` — the candidates kept and passed over, nearest first.
* `Proximity.Selection.select` — the selection, in the order of the candidates.
-/

namespace Proximity.Selection

variable {ε : Type}

/-- Whether a candidate is no nearer to any of those kept than to the node. -/
def isDiverse (between : VectorId → VectorId → Except ε Single) (candidate : Candidate) :
    (kept : List VectorId) → Except ε Bool
  | [] => .ok true
  | other :: kept => do
    if (← between candidate.id other).lt candidate.distance then return false
    else isDiverse between candidate kept

/-- The candidates that are kept and those passed over, behind what is `kept` and `skipped` before,
until `limit` are kept. Pinned candidates count as kept from the beginning. -/
def sweep (between : VectorId → VectorId → Except ε Single) (limit : Nat)
    (pinned kept skipped : List VectorId) :
    List Candidate → Except ε (List VectorId × List VectorId)
  | [] => .ok (kept, skipped)
  | candidate :: candidates =>
    if limit ≤ kept.length then .ok (kept, skipped)
    else if pinned.contains candidate.id then sweep between limit pinned kept skipped candidates
    else do
      if ← isDiverse between candidate kept then
        sweep between limit pinned (kept ++ [candidate.id]) skipped candidates
      else sweep between limit pinned kept (skipped ++ [candidate.id]) candidates

/-- Names in the order of the candidates that bear them. -/
def inOrder (candidates : List Candidate) (ids : List VectorId) : List VectorId :=
  let place (id : VectorId) : Nat := candidates.findIdx fun candidate => candidate.id = id
  ids.mergeSort fun a b => place a ≤ place b

/-- Up to `limit` of the candidates, which come nearest first: the pinned ones, then the diverse
ones, then the nearest of those passed over. -/
def select (between : VectorId → VectorId → Except ε Single) (limit : Nat)
    (pinned : List VectorId) (candidates : List Candidate) : Except ε (List VectorId) := do
  let first := (candidates.map Candidate.id).filter fun id => pinned.contains id
  let (kept, skipped) ← sweep between limit pinned first [] candidates
  return inOrder candidates (kept ++ skipped.take (limit - kept.length))

end Proximity.Selection

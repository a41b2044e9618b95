import Proximity.Identifier
import Proximity.Single

set_option autoImplicit false
set_option relaxedAutoImplicit false

/-!
# Candidates

A candidate is a vector together with its distance to what is looked for. Candidates are totally
ordered, nearer ones first, and of equally near ones the one with the lower name first.

## Main definitions

* `Proximity.Candidate` — a vector and its distance.
* `Proximity.Candidate.before` — the order.
* `Proximity.Candidate.insert` — a candidate put into its place in an ascending list.
* `Proximity.Candidate.sort` — a list in ascending order.
-/

namespace Proximity

/-- A vector and its distance to what is looked for. -/
structure Candidate where
  /-- The distance, lower for nearer vectors. -/
  distance : Single
  /-- The name of the vector. -/
  id : VectorId
deriving DecidableEq

namespace Candidate

/-- Whether one candidate comes before another. -/
def before (a b : Candidate) : Bool :=
  a.distance.rank < b.distance.rank ||
    (a.distance.rank == b.distance.rank && a.id.raw < b.id.raw)

/-- Whether one candidate comes before another or has the same place. -/
def notAfter (a b : Candidate) : Bool :=
  !b.before a

/-- A candidate put into its place in an ascending list. -/
def insert (candidate : Candidate) : List Candidate → List Candidate
  | [] => [candidate]
  | first :: rest =>
    if candidate.before first then candidate :: first :: rest else first :: insert candidate rest

/-- The candidates in ascending order. -/
def sort (candidates : List Candidate) : List Candidate :=
  candidates.mergeSort notAfter

/-! ## The order -/

/-- The order of the candidates: by distance, and at the same distance by name. -/
theorem before_iff {a b : Candidate} : a.before b = true ↔
    a.distance.rank < b.distance.rank ∨
      (a.distance.rank = b.distance.rank ∧ a.id.raw < b.id.raw) := by
  simp [before]

/-- No candidate comes before itself. -/
theorem before_irrefl (a : Candidate) : a.before a = false := by
  simp [before]

/-- The order of the candidates is transitive. -/
theorem before_trans {a b c : Candidate} (hab : a.before b = true) (hbc : b.before c = true) :
    a.before c = true := by
  rw [before_iff] at hab hbc ⊢
  rcases hab with hab | ⟨hab, hid⟩ <;> rcases hbc with hbc | ⟨hbc, hid'⟩
  · exact .inl (by omega)
  · exact .inl (by omega)
  · exact .inl (by omega)
  · exact .inr ⟨by omega, UInt64.lt_trans hid hid'⟩

/-- Putting a candidate in its place makes the list longer by one. -/
@[simp]
theorem length_insert (candidate : Candidate) (list : List Candidate) :
    (candidate.insert list).length = list.length + 1 := by
  induction list with
  | nil => rfl
  | cons first rest ih =>
    unfold insert
    split <;> simp [ih]

end Candidate

end Proximity

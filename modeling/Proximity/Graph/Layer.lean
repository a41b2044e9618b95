import Proximity.Graph.Candidate

set_option autoImplicit false
set_option relaxedAutoImplicit false

/-!
# A layer as one query sees it

Every walk over a graph stays on one layer and compares each vector that it meets with one query.
It needs the neighbors of a vector on that layer and the distance of a vector to the query. Either
look-up may fail, because the graph may be damaged; only vectors of a finite set ever succeed, which
is why every walk comes to an end.

## Main definitions

* `Proximity.Layer` — neighbors and distances.
* `Proximity.Layer.unvisited` — the vectors that a walk has still before it.
-/

namespace Proximity

/-- One layer of a graph, as one query sees it. -/
structure Layer (ε : Type) where
  /-- The vectors for which a look-up can succeed. -/
  nodes : List VectorId
  /-- The neighbors of a vector. -/
  neighbors : VectorId → Except ε (List VectorId)
  /-- The distance of a vector to the query. -/
  distance : VectorId → Except ε Single
  /-- Neighbors are only found for vectors of the finite set. -/
  mem_of_neighbors : ∀ {id list}, neighbors id = .ok list → id ∈ nodes
  /-- Distances are only found for vectors of the finite set. -/
  mem_of_distance : ∀ {id d}, distance id = .ok d → id ∈ nodes

namespace Layer

variable {ε : Type}

/-- The vector as a candidate, with its true distance. -/
def candidate (layer : Layer ε) (id : VectorId) : Except ε Candidate := do
  let distance ← layer.distance id
  return { distance, id }

/-- The vectors that have not been visited. -/
def unvisited (layer : Layer ε) (visited : IdSet) : List VectorId :=
  layer.nodes.filter fun id => !visited.contains id

/-! ## Visiting leaves fewer vectors -/

/-- Keeping fewer members of a list makes it shorter if one that was kept is kept no longer.

**Proof sketch.** Induction on the list up to the member that is no longer kept. Behind it no member
is gained. -/
theorem length_filter_lt {α : Type} {p q : α → Bool} (hpq : ∀ x, q x = true → p x = true)
    {x : α} (hp : p x = true) (hq : q x = false) :
    ∀ {list : List α}, x ∈ list → (list.filter q).length < (list.filter p).length
  | [], h => by simp at h
  | y :: list, h => by
    have hle : (list.filter q).length ≤ (list.filter p).length := by
      rw [← List.countP_eq_length_filter, ← List.countP_eq_length_filter]
      exact List.countP_mono_left fun a _ ha => hpq a ha
    rcases List.mem_cons.mp h with rfl | h
    · simp only [List.filter_cons, hp, hq, if_true, List.length_cons]
      simp only [Bool.false_eq_true, if_false]
      omega
    · have ih := length_filter_lt hpq hp hq h
      by_cases hqy : q y = true
      · simp only [List.filter_cons, hqy, hpq y hqy, if_true, List.length_cons]
        omega
      · simp only [List.filter_cons, hqy, if_false, Bool.false_eq_true]
        split
        · simp only [List.length_cons]
          omega
        · exact ih

/-- A vector that has been met stays met. -/
theorem contains_insert_of_contains {visited : IdSet} {a b : VectorId}
    (h : visited.contains a = true) : (visited.insert b).contains a = true := by
  simp [Std.TreeSet.contains_insert, h]

/-- Visiting a vector for the first time leaves fewer unvisited ones. -/
theorem length_unvisited_insert_lt (layer : Layer ε) {visited : IdSet} {id : VectorId}
    (hmem : id ∈ layer.nodes) (hnew : visited.contains id = false) :
    (layer.unvisited (visited.insert id)).length < (layer.unvisited visited).length := by
  refine length_filter_lt (x := id) (fun x hx => ?_) (by simp only [hnew, Bool.not_false]) ?_ hmem
  · cases hv : visited.contains x with
    | false => rfl
    | true => simp only [contains_insert_of_contains hv, Bool.not_true, Bool.false_eq_true] at hx
  · simp only [Std.TreeSet.contains_insert_self, Bool.not_true]

end Layer

end Proximity

import Proximity.Graph.Layer

set_option autoImplicit false
set_option relaxedAutoImplicit false

/-!
# Greedy descent

Above the lowest layers a search only looks for a good place to start from. On each layer it moves
to the best neighbor for as long as a neighbor is better.

## Main definitions

* `Proximity.Layer.improve` — the best of a candidate and its neighbors.
* `Proximity.Layer.descend` — a candidate that none of its neighbors betters.
* `Proximity.descendLayers` — the descent through several layers.

## Main results

* `Proximity.Layer.improve_cases` — an improvement carries the true distance of its vector, which
  makes the descent end.
-/

namespace Proximity

namespace Layer

variable {ε : Type}

/-- The better of the best candidate so far and a vector. -/
def better (layer : Layer ε) (best : Candidate) (id : VectorId) : Except ε Candidate := do
  let candidate ← layer.candidate id
  return if candidate.before best then candidate else best

/-- The best of a candidate and its neighbors. -/
def improve (layer : Layer ε) (start : Candidate) : Except ε Candidate := do
  let list ← layer.neighbors start.id
  list.foldlM layer.better start

/-- The number of vectors that are nearer than a candidate. -/
def nearer (layer : Layer ε) (start : Candidate) : Nat :=
  (layer.nodes.filter fun id =>
    match layer.distance id with
    | .ok distance => Candidate.before { distance, id } start
    | .error _ => false).length

/-- What is kept of a candidate and a neighbor is the candidate, or the neighbor that comes before
it. -/
theorem better_cases {layer : Layer ε} {best next : Candidate} {id : VectorId}
    (h : layer.better best id = .ok next) :
    next = best ∨ (next.before best = true ∧ layer.distance next.id = .ok next.distance) := by
  unfold better candidate at h
  cases hd : layer.distance id with
  | error e => simp [hd, bind, Except.bind] at h
  | ok d =>
    simp only [hd, bind, Except.bind, pure, Except.pure, Except.ok.injEq] at h
    split at h
    · next hb => subst h; exact .inr ⟨hb, hd⟩
    · exact .inl h.symm

/-- What is kept of a candidate and its neighbors is the candidate, or a neighbor that comes before
it.

**Proof sketch.** Induction on the list. A neighbor that comes before what has been kept comes
before the start, since the order is transitive. -/
theorem foldlM_better_cases {layer : Layer ε} {list : List VectorId} :
    ∀ {start best : Candidate}, list.foldlM layer.better start = .ok best →
      best = start ∨ (best.before start = true ∧ layer.distance best.id = .ok best.distance) := by
  induction list with
  | nil =>
    intro start best h
    simp only [List.foldlM_nil, pure, Except.pure, Except.ok.injEq] at h
    exact .inl h.symm
  | cons id list ih =>
    intro start best h
    rw [List.foldlM_cons] at h
    cases hb : layer.better start id with
    | error e => simp [hb, bind, Except.bind] at h
    | ok next =>
      simp only [hb, bind, Except.bind] at h
      rcases ih h with rfl | ⟨hlt, hd⟩
      · exact better_cases hb
      · rcases better_cases hb with rfl | ⟨hlt', _⟩
        · exact .inr ⟨hlt, hd⟩
        · exact .inr ⟨Candidate.before_trans hlt hlt', hd⟩

/-- An improvement is the candidate itself, or it comes before the candidate and carries the true
distance of its vector. -/
theorem improve_cases {layer : Layer ε} {start best : Candidate}
    (h : layer.improve start = .ok best) :
    best = start ∨ (best.before start = true ∧ layer.distance best.id = .ok best.distance) := by
  unfold improve at h
  cases hn : layer.neighbors start.id with
  | error e => simp [hn, bind, Except.bind] at h
  | ok list =>
    simp only [hn, bind, Except.bind] at h
    exact foldlM_better_cases h

/-- After a step to a better candidate, fewer vectors are nearer than the one that has been
reached. -/
theorem nearer_lt_of_improve {layer : Layer ε} {start best : Candidate}
    (h : layer.improve start = .ok best) (hlt : best.before start = true) :
    layer.nearer best < layer.nearer start := by
  rcases improve_cases h with rfl | ⟨_, hd⟩
  · simp [Candidate.before_irrefl] at hlt
  · refine length_filter_lt (x := best.id) (fun id hid => ?_) ?_ ?_ (layer.mem_of_distance hd)
    · cases hdi : layer.distance id with
      | error e => simp [hdi] at hid
      | ok d =>
        simp only [hdi] at hid ⊢
        exact Candidate.before_trans hid hlt
    · simp only [hd]; exact hlt
    · simp only [hd]; exact Candidate.before_irrefl best

/-- A candidate that none of its neighbors betters, reached by moving to the best neighbor for as
long as one is better. -/
def descend (layer : Layer ε) (start : Candidate) : Except ε Candidate :=
  match _ : layer.improve start with
  | .error e => .error e
  | .ok best => if _ : best.before start = true then descend layer best else .ok start
termination_by layer.nearer start
decreasing_by exact nearer_lt_of_improve (by assumption) (by assumption)

end Layer

/-- The descent through `count` layers down to the layer `bottom`. -/
def descendLayers {ε : Type} (layer : Nat → Layer ε) (bottom : Nat) :
    (count : Nat) → Candidate → Except ε Candidate
  | 0, start => .ok start
  | count + 1, start => do
    let best ← (layer (bottom + count)).descend start
    descendLayers layer bottom count best

end Proximity

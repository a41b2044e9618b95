import Proximity.Graph.Layer

set_option autoImplicit false
set_option relaxedAutoImplicit false

/-!
# Beam search

A beam search keeps the best candidates that it has met, up to the width of the beam, and a
frontier of candidates whose neighbors it has not looked at. It looks at the nearest one of the
frontier each time and stops when the beam is full and nothing on the frontier is nearer than its
last candidate.

## Main definitions

* `Proximity.Beam` — the state of a beam search.
* `Proximity.Layer.beamSearch` — the best candidates that can be reached from some entries.

## Main results

* `Proximity.Layer.foldlM_visit_le` — looking at neighbors moves vectors from the unvisited ones to
  the frontier at most, which makes the search end.
-/

namespace Proximity

/-- The state of a beam search. -/
structure Beam where
  /-- The vectors that have been met. -/
  visited : IdSet
  /-- The candidates whose neighbors have not been looked at, in ascending order. -/
  frontier : List Candidate
  /-- The best candidates so far, in ascending order. -/
  results : List Candidate

namespace Beam

/-- The state before the first candidate. -/
def empty : Beam where
  visited := ∅
  frontier := []
  results := []

/-- Whether a beam of this width is full and a candidate comes after its last one. -/
def excludes (width : Nat) (beam : Beam) (candidate : Candidate) : Bool :=
  decide (width ≤ beam.results.length) &&
    match beam.results.getLast? with
    | some worst => worst.before candidate
    | none => false

/-- Whether a candidate is to be taken into a beam of this width. -/
def takes (width : Nat) (beam : Beam) (candidate : Candidate) : Bool :=
  decide (beam.results.length < width) ||
    match beam.results.getLast? with
    | some worst => candidate.before worst
    | none => true

/-- The beam with a candidate taken in, and its last candidate dropped if it is too wide then. -/
def add (width : Nat) (beam : Beam) (candidate : Candidate) : Beam where
  visited := beam.visited.insert candidate.id
  frontier := candidate.insert beam.frontier
  results := (candidate.insert beam.results).take width

/-- The beam that has met a candidate. -/
def meet (width : Nat) (beam : Beam) (candidate : Candidate) : Beam :=
  if beam.takes width candidate then beam.add width candidate
  else { beam with visited := beam.visited.insert candidate.id }

/-- The beam with an entry taken in, unless its vector has been met. -/
def enter (width : Nat) (beam : Beam) (entry : Candidate) : Beam :=
  if beam.visited.contains entry.id then beam else beam.add width entry

/-- The beam that starts from some entries. -/
def start (width : Nat) (entries : List Candidate) : Beam :=
  entries.foldl (enter width) empty

end Beam

namespace Layer

variable {ε : Type}

/-- The beam that has met a vector. -/
def visit (layer : Layer ε) (width : Nat) (beam : Beam) (id : VectorId) : Except ε Beam :=
  if beam.visited.contains id then .ok beam
  else do
    let candidate ← layer.candidate id
    return beam.meet width candidate

/-- The work that a beam has still before it. -/
def pending (layer : Layer ε) (beam : Beam) : Nat :=
  (layer.unvisited beam.visited).length + beam.frontier.length

/-- A vector that is met for the first time goes to the frontier at most: the work that it adds
there is taken from what has not been met. -/
theorem pending_meet_le {layer : Layer ε} {beam : Beam} {candidate : Candidate} (width : Nat)
    (hmem : candidate.id ∈ layer.nodes) (hnew : beam.visited.contains candidate.id = false) :
    layer.pending (beam.meet width candidate) ≤ layer.pending beam := by
  have hlt := layer.length_unvisited_insert_lt hmem hnew
  unfold Beam.meet pending
  split
  · simp only [Beam.add, Candidate.length_insert]
    omega
  · simp only
    omega

/-- Looking at a vector adds no work. -/
theorem visit_le {layer : Layer ε} {width : Nat} {beam next : Beam} {id : VectorId}
    (h : layer.visit width beam id = .ok next) : layer.pending next ≤ layer.pending beam := by
  unfold visit at h
  split at h
  · simp only [Except.ok.injEq] at h
    subst h
    exact Nat.le_refl _
  · next hnew =>
    unfold candidate at h
    cases hd : layer.distance id with
    | error e => simp [hd, bind, Except.bind] at h
    | ok d =>
      simp only [hd, bind, Except.bind, pure, Except.pure, Except.ok.injEq] at h
      subst h
      exact pending_meet_le width (layer.mem_of_distance hd) (Bool.eq_false_iff.mpr hnew)

/-- Looking at neighbors adds no work.

**Proof sketch.** Induction on the list; each vector is passed to `visit_le`. -/
theorem foldlM_visit_le {layer : Layer ε} {width : Nat} {list : List VectorId} :
    ∀ {beam next : Beam}, list.foldlM (layer.visit width) beam = .ok next →
      layer.pending next ≤ layer.pending beam := by
  induction list with
  | nil =>
    intro beam next h
    simp only [List.foldlM_nil, pure, Except.pure, Except.ok.injEq] at h
    subst h
    exact Nat.le_refl _
  | cons id list ih =>
    intro beam next h
    rw [List.foldlM_cons] at h
    cases hv : layer.visit width beam id with
    | error e => simp [hv, bind, Except.bind] at h
    | ok between =>
      simp only [hv, bind, Except.bind] at h
      exact Nat.le_trans (ih h) (visit_le hv)

/-- The beam that has met the neighbors of a candidate. -/
def expand (layer : Layer ε) (width : Nat) (beam : Beam) (nearest : Candidate) :
    Except ε Beam := do
  let list ← layer.neighbors nearest.id
  list.foldlM (layer.visit width) beam

/-- Looking at the neighbors of a candidate adds no work. -/
theorem expand_le {layer : Layer ε} {width : Nat} {beam next : Beam} {nearest : Candidate}
    (h : layer.expand width beam nearest = .ok next) :
    layer.pending next ≤ layer.pending beam := by
  unfold expand at h
  cases hn : layer.neighbors nearest.id with
  | error e => simp [hn, bind, Except.bind] at h
  | ok list =>
    simp only [hn, bind, Except.bind] at h
    exact foldlM_visit_le h

/-- Taking the nearest candidate from the frontier and looking at its neighbors leaves less work. -/
theorem pending_lt_of_expand {layer : Layer ε} {width : Nat} {beam next : Beam}
    {nearest : Candidate} {frontier : List Candidate} (hf : beam.frontier = nearest :: frontier)
    (h : layer.expand width { beam with frontier } nearest = .ok next) :
    layer.pending next < layer.pending beam := by
  have hle := expand_le h
  simp only [pending, hf, List.length_cons] at hle ⊢
  omega

/-- The results of a beam search that goes on from a state. -/
def explore (layer : Layer ε) (width : Nat) (beam : Beam) : Except ε (List Candidate) :=
  match _ : beam.frontier with
  | [] => .ok beam.results
  | nearest :: frontier =>
    if beam.excludes width nearest then .ok beam.results
    else
      match _ : layer.expand width { beam with frontier } nearest with
      | .error e => .error e
      | .ok next => explore layer width next
termination_by layer.pending beam
decreasing_by exact pending_lt_of_expand (by assumption) (by assumption)

/-- The best candidates that can be reached from some entries, at most `width` and at least one, in
ascending order. -/
def beamSearch (layer : Layer ε) (width : Nat) (entries : List Candidate) :
    Except ε (List Candidate) :=
  layer.explore (max width 1) (Beam.start (max width 1) entries)

end Layer

end Proximity

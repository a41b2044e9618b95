import Mathlib.Algebra.BigOperators.Group.List.Basic
import Mathlib.Algebra.GroupWithZero.Nat
import Mathlib.Algebra.Order.BigOperators.Group.List
import Mathlib.Algebra.Order.Group.Nat
import Proximity.Graph.Insertion
import Proximity.Proofs.Except
import Proximity.Proofs.Graph.Ordering

set_option relaxedAutoImplicit false
set_option autoImplicit false

/-!
# The rounds of a walk

A walk over a layer is a loop, and what its look-ups answer need not come from a sound graph: lists
may name vectors twice, in a circle, or vectors that do not exist. Still the number of rounds is
bounded. A descent moves to a nearer vector each time, in an order that is total for all distances;
a beam search takes a candidate off its frontier, and only a vector that has not been met gets onto
it; the search for a parent takes a vector off its queue, and only the lists of vectors that have
not been seen get onto it.

Each loop is given here round by round, without any regard to its end. It comes to its end within a
number of rounds that can be told before, with the answer of the function that has been defined by
recursion.

## Main definitions

* `Proximity.Round` — what a round of a loop leads to.
* `Proximity.Round.EndsWithin` — a loop is over after a number of rounds.
* `Proximity.Round.Computes` — a loop that works towards the answers of a function.
* `Proximity.descentRound`, `Proximity.Layer.beamRound`, `Proximity.Layer.parentRound` — one round
  of each walk.

## Main results

* `Proximity.Round.Computes.endsWithin` — a loop that comes nearer to its end in each round ends.
* `Proximity.endsWithin_descendLayers`, `Proximity.Layer.endsWithin_beamSearch`,
  `Proximity.Layer.endsWithin_firstWithRoom` — the three walks.
* `Proximity.isLeast_descendLayers` — no neighbor betters the end of a descent.
-/

namespace Proximity

/-! ## Loops -/

/-- What a round of a loop leads to. -/
inductive Round (σ α : Type)
  /-- One more round, from a state. -/
  | again (state : σ)
  /-- The end of the loop, with an answer. -/
  | done (answer : α)

namespace Round

variable {σ α : Type}

/-- The answer of a loop, if it is over after `rounds` rounds. -/
def iterate (round : σ → Round σ α) : (rounds : Nat) → σ → Option α
  | 0, _ => none
  | rounds + 1, state =>
    match round state with
    | again next => iterate round rounds next
    | done answer => some answer

/-- **A loop is over after `bound` rounds**, and has the answer then. -/
def EndsWithin (round : σ → Round σ α) (bound : Nat) (state : σ) (answer : α) : Prop :=
  ∀ rounds, bound ≤ rounds → iterate round rounds state = some answer

/-- A round works towards an answer: it gives the answer, or it goes on from a state that leads to
the answer, with less left to be done. -/
inductive Advances (answer : σ → α) (left : σ → Nat) (due : α) (now : Nat) : Round σ α → Prop
  /-- It gives the answer. -/
  | done : Advances answer left due now (.done due)
  /-- It goes on. -/
  | again {next : σ} (hsame : answer next = due) (hless : left next < now) :
    Advances answer left due now (.again next)

/-- **A loop computes a function** if each round from a state works towards the answer of the
function there. -/
def Computes (round : σ → Round σ α) (answer : σ → α) (left : σ → Nat) : Prop :=
  ∀ state, Advances answer left (answer state) (left state) (round state)

/-- **A loop that comes nearer to its end in each round ends**, with the answer of the function.

**Proof sketch.** Induction on the rounds: each of them gives the answer, or goes on with less to do
and the same answer before it. -/
theorem Computes.endsWithin {round : σ → Round σ α} {answer : σ → α} {left : σ → Nat}
    (h : Computes round answer left) {state : σ} {bound : Nat} (hbound : left state < bound) :
    EndsWithin round bound state (answer state) := by
  intro rounds hrounds
  induction rounds generalizing state bound with
  | zero => exact absurd (Nat.lt_of_lt_of_le hbound hrounds) (Nat.not_lt_zero _)
  | succ rounds ih =>
    have hadvances := h state
    rw [iterate]
    cases hround : round state with
    | done result =>
      rw [hround] at hadvances
      cases hadvances
      rfl
    | again next =>
      rw [hround] at hadvances
      cases hadvances with
      | again hsame hless =>
        rw [← hsame]
        exact ih (Nat.lt_succ_self _) (by omega)

end Round

variable {ε : Type}

/-! ## Descending -/

/-- One round of a descent through layers: the candidate moves to the best neighbor on the layer
that is numbered by the count, or the walk goes on on the layer below. -/
def descentRound (layer : Nat → Layer ε) (bottom : Nat) :
    Nat × Candidate → Round (Nat × Candidate) (Except ε Candidate)
  | (0, best) => .done (.ok best)
  | (count + 1, best) =>
    match (layer (bottom + count)).improve best with
    | .error e => .done (.error e)
    | .ok next => if next.before best then .again (count + 1, next) else .again (count, best)

namespace Layer

variable {layer : Layer ε} {start best : Candidate}

/-- A descent goes on from a better neighbor, or ends. -/
lemma descend_of_improve (h : layer.improve start = .ok best) :
    layer.descend start =
      if best.before start = true then layer.descend best else .ok start := by
  rw [descend.eq_def]
  split
  · next e he => rw [h] at he; cases he
  · next next hnext =>
    obtain rfl := Except.ok.inj (h.symm.trans hnext)
    split_ifs <;> rfl

/-- A descent fails where a neighbor cannot be read. -/
lemma descend_of_improve_eq_error {e : ε} (h : layer.improve start = .error e) :
    layer.descend start = .error e := by
  rw [descend.eq_def]
  split
  · next e' he => rw [← Except.error.inj (h.symm.trans he)]
  · next next hnext => rw [h] at hnext; cases hnext

/-- No more vectors are nearer than there are. -/
lemma nearer_le (layer : Layer ε) (start : Candidate) :
    layer.nearer start ≤ layer.nodes.length :=
  List.length_filter_le _ _

end Layer

/-- The rounds that a descent can still take: each vector that is nearer on the layer, and then
every vector on each of the layers below. -/
def descentLeft (layer : Nat → Layer ε) (bottom total : Nat) : Nat × Candidate → Nat
  | (0, _) => 0
  | (count + 1, best) => (layer (bottom + count)).nearer best + 1 + count * (total + 1)

variable {layer : Nat → Layer ε} {total : Nat}

/-- What a descent has left to do is bounded by the layers and the vectors on each. -/
lemma descentLeft_le (htotal : ∀ number, (layer number).nodes.length ≤ total) (bottom : Nat)
    (state : Nat × Candidate) :
    descentLeft layer bottom total state ≤ state.1 * (total + 1) := by
  obtain ⟨count, best⟩ := state
  cases count with
  | zero => exact Nat.zero_le _
  | succ count =>
    have hnearer := Nat.le_trans ((layer (bottom + count)).nearer_le best) (htotal _)
    have hsucc : (count + 1) * (total + 1) = count * (total + 1) + (total + 1) :=
      Nat.succ_mul count (total + 1)
    simp only [descentLeft]
    omega

/-- The rounds of a descent work towards its end.

**Proof sketch.** One round goes to a better neighbor on the layer, of which there are fewer now, or
down to the next layer. -/
lemma computes_descentRound (htotal : ∀ number, (layer number).nodes.length ≤ total)
    (bottom : Nat) : Round.Computes (descentRound layer bottom)
      (fun state => descendLayers layer bottom state.1 state.2)
      (descentLeft layer bottom total) := by
  rintro ⟨count, best⟩
  cases count with
  | zero => exact .done
  | succ count =>
    cases hbest : (layer (bottom + count)).improve best with
    | error e =>
      have hdescend := Layer.descend_of_improve_eq_error hbest
      simp only [descentRound, hbest, descendLayers, hdescend, Except.error_bind]
      exact .done
    | ok next =>
      have hdescend := Layer.descend_of_improve hbest
      simp only [descentRound, hbest]
      split_ifs with hless
      · rw [if_pos hless] at hdescend
        refine .again (by simp only [descendLayers, hdescend]) ?_
        have hnearer := Layer.nearer_lt_of_improve hbest hless
        simp only [descentLeft]
        omega
      · rw [if_neg hless] at hdescend
        refine .again (by simp only [descendLayers, hdescend, Except.ok_bind]) ?_
        have hle := descentLeft_le htotal bottom (count, best)
        simp only [descentLeft] at hle ⊢
        omega

/-- **A descent ends**: on each layer it takes one round for each vector at most, and one more. -/
theorem endsWithin_descendLayers (htotal : ∀ number, (layer number).nodes.length ≤ total)
    (bottom count : Nat) (start : Candidate) :
    Round.EndsWithin (descentRound layer bottom) (count * (total + 1) + 1) (count, start)
      (descendLayers layer bottom count start) :=
  (computes_descentRound htotal bottom).endsWithin
    (Nat.lt_succ_of_le (descentLeft_le htotal bottom (count, start)))

/-! ## Where a descent ends -/

/-- A candidate on a layer that none of its neighbors comes before, all of whose distances can be
told. -/
def Layer.IsLeast (layer : Layer ε) (best : Candidate) : Prop :=
  ∃ list, layer.neighbors best.id = .ok list ∧
    ∀ id ∈ list, ∃ distance, layer.distance id = .ok distance ∧
      best.notAfter { distance, id } = true

namespace Layer

variable {layer : Layer ε} {start best : Candidate} {list : List VectorId}

/-- What is kept of a candidate and a neighbor is not behind either. -/
lemma better_spec {id : VectorId} (h : layer.better start id = .ok best) :
    best.notAfter start = true ∧
      ∃ distance, layer.distance id = .ok distance ∧ best.notAfter { distance, id } = true := by
  obtain ⟨candidate, hcandidate, h⟩ := Except.bind_eq_ok_iff.mp h
  obtain ⟨distance, hdistance, hbuilt⟩ := Except.bind_eq_ok_iff.mp hcandidate
  obtain rfl := Except.ok.inj hbuilt
  rw [← Except.ok.inj h]
  split_ifs with hless
  · exact ⟨Candidate.notAfter_of_before hless, distance, hdistance, Candidate.notAfter_refl _⟩
  · exact ⟨Candidate.notAfter_refl _, distance, hdistance,
      Candidate.notAfter_iff.mpr (Bool.eq_false_iff.mpr hless)⟩

/-- The best of a candidate and some vectors comes after none of them. -/
lemma foldlM_better_spec (h : list.foldlM layer.better start = .ok best) :
    best.notAfter start = true ∧ ∀ id ∈ list, ∃ distance, layer.distance id = .ok distance ∧
      best.notAfter { distance, id } = true := by
  induction list generalizing start with
  | nil =>
    rw [← Except.ok.inj h]
    exact ⟨Candidate.notAfter_refl _, by simp⟩
  | cons id list ih =>
    rw [List.foldlM_cons] at h
    obtain ⟨between, hbetween, h⟩ := Except.bind_eq_ok_iff.mp h
    obtain ⟨hstart, distance, hdistance, hid⟩ := better_spec hbetween
    obtain ⟨hbest, hall⟩ := ih h
    exact ⟨Candidate.notAfter_trans hbest hstart, List.forall_mem_cons.mpr
      ⟨⟨distance, hdistance, Candidate.notAfter_trans hbest hid⟩, hall⟩⟩

/-- **A descent on a layer ends where no neighbor is better**, and not behind its start.

**Proof sketch.** Induction along the descent. Where it ends, the start is the best of itself and
its neighbors. -/
theorem isLeast_descend (h : layer.descend start = .ok best) :
    best.notAfter start = true ∧ layer.IsLeast best := by
  fun_induction layer.descend start with
  | case1 start e he => cases h
  | case2 start next hnext hless ih =>
    obtain ⟨hbest, hleast⟩ := ih h
    exact ⟨Candidate.notAfter_trans hbest (Candidate.notAfter_of_before hless), hleast⟩
  | case3 start next hnext hless =>
    obtain rfl := Except.ok.inj h
    obtain ⟨list, hlist, hfold⟩ := Except.bind_eq_ok_iff.mp hnext
    -- What has not moved is the best of itself and its neighbors.
    obtain rfl : next = start := (improve_cases hnext).resolve_right fun hcase => hless hcase.1
    exact ⟨Candidate.notAfter_refl _, list, hlist, (foldlM_better_spec hfold).2⟩

end Layer

/-- **A descent through layers ends where no neighbor on the last one is better**, and not behind
its start.

**Proof sketch.** Induction on the layers; the last one decides. -/
theorem isLeast_descendLayers {bottom count : Nat} {start best : Candidate}
    (h : descendLayers layer bottom count start = .ok best) :
    best.notAfter start = true ∧ (0 < count → (layer bottom).IsLeast best) := by
  induction count generalizing start with
  | zero =>
    rw [← Except.ok.inj h]
    exact ⟨Candidate.notAfter_refl _, fun hpos => absurd hpos (Nat.lt_irrefl 0)⟩
  | succ count ih =>
    obtain ⟨between, hbetween, h⟩ := Except.bind_eq_ok_iff.mp h
    obtain ⟨hstart, hleast⟩ := Layer.isLeast_descend hbetween
    obtain ⟨hbest, hlast⟩ := ih h
    refine ⟨Candidate.notAfter_trans hbest hstart, fun _ => ?_⟩
    rcases Nat.eq_zero_or_pos count with rfl | hpos
    · rw [← Except.ok.inj h]
      exact hleast
    · exact hlast hpos

namespace Layer

variable {layer : Layer ε}

/-! ## Beam searches -/

/-- One round of a beam search: the nearest candidate of the frontier is taken off, and its
neighbors are met. -/
def beamRound (layer : Layer ε) (width : Nat) (beam : Beam) :
    Round Beam (Except ε (List Candidate)) :=
  match beam.frontier with
  | [] => .done (.ok beam.results)
  | nearest :: frontier =>
    if beam.excludes width nearest then .done (.ok beam.results)
    else
      match layer.expand width { beam with frontier } nearest with
      | .error e => .done (.error e)
      | .ok next => .again next

/-- The rounds of a beam search work towards its end.

**Proof sketch.** By the branches of the search. Where it goes on there is less to be done. -/
lemma computes_beamRound (layer : Layer ε) (width : Nat) :
    Round.Computes (layer.beamRound width) (layer.explore width) layer.pending := by
  intro beam
  fun_cases layer.explore width beam with
  | case1 hfrontier =>
    rw [beamRound, hfrontier]
    exact .done
  | case2 nearest frontier hfrontier hexcludes =>
    simp only [beamRound, hfrontier, if_pos hexcludes]
    exact .done
  | case3 nearest frontier hfrontier hexcludes e he =>
    simp only [beamRound, hfrontier, if_neg hexcludes, he]
    exact .done
  | case4 nearest frontier hfrontier hexcludes next hnext =>
    simp only [beamRound, hfrontier, if_neg hexcludes, hnext]
    exact .again rfl (pending_lt_of_expand hfrontier hnext)

/-- An entry adds no more than itself to the frontier. -/
lemma length_frontier_start_le (width : Nat) (entries : List Candidate) (beam : Beam) :
    (entries.foldl (Beam.enter width) beam).frontier.length ≤
      beam.frontier.length + entries.length := by
  induction entries generalizing beam with
  | nil => exact Nat.le_refl _
  | cons entry entries ih =>
    have hle := ih (beam.enter width entry)
    have henter : (beam.enter width entry).frontier.length ≤ beam.frontier.length + 1 := by
      unfold Beam.enter
      split_ifs
      · exact Nat.le_succ _
      · exact Nat.le_of_eq (Candidate.length_insert entry beam.frontier)
    rw [List.foldl_cons, List.length_cons]
    omega

/-- A beam search has no more to do at first than to meet all vectors and to take up the entries. -/
lemma pending_start_le (layer : Layer ε) (width : Nat) (entries : List Candidate) :
    layer.pending (Beam.start width entries) ≤ layer.nodes.length + entries.length := by
  have hfrontier := length_frontier_start_le width entries Beam.empty
  rw [show Beam.empty.frontier.length = 0 from rfl, Nat.zero_add] at hfrontier
  exact Nat.add_le_add (List.length_filter_le _ _) hfrontier

/-- **A beam search ends**: it takes one round for each vector and each entry at most, and one
more. -/
theorem endsWithin_beamSearch (layer : Layer ε) (width : Nat) (entries : List Candidate) :
    Round.EndsWithin (layer.beamRound (max width 1)) (layer.nodes.length + entries.length + 1)
      (Beam.start (max width 1) entries) (layer.beamSearch width entries) :=
  (layer.computes_beamRound _).endsWithin
    (Nat.lt_succ_of_le (layer.pending_start_le _ entries))

/-! ## The search for a parent -/

/-- One round of the search for a parent: the first vector of the queue is taken off, and its
neighbors are put behind the others. -/
def parentRound (layer : Layer ε) (hasRoom : VectorId → List VectorId → Except ε Bool)
    (saturated : ε) : IdSet × List VectorId → Round (IdSet × List VectorId) (Except ε VectorId)
  | (_, []) => .done (.error saturated)
  | (seen, id :: queue) =>
    if seen.contains id then .again (seen, queue)
    else
      match layer.neighbors id with
      | .error e => .done (.error e)
      | .ok list =>
        match hasRoom id list with
        | .error e => .done (.error e)
        | .ok true => .done (.ok id)
        | .ok false => .again (seen.insert id, queue ++ list)

/-- The number of neighbors of a vector. -/
def degree (layer : Layer ε) (id : VectorId) : Nat :=
  match layer.neighbors id with
  | .ok list => list.length
  | .error _ => 0

/-- The number of neighbors of some vectors taken together. -/
def degrees (layer : Layer ε) (ids : List VectorId) : Nat :=
  (ids.map layer.degree).sum

/-- The rounds that the search for a parent can still take: each vector of the queue, and each
neighbor of those that have not been seen. -/
def parentLeft (layer : Layer ε) (state : IdSet × List VectorId) : Nat :=
  layer.degrees (layer.unvisited state.1) + state.2.length

/-- What has been seen for the first time has its neighbors no longer before it.

**Proof sketch.** The vector was among those that had not been seen, and it is no longer. The others
are still there or have been seen before. -/
lemma degrees_unvisited_insert {seen : IdSet} {id : VectorId} (hmem : id ∈ layer.nodes)
    (hnew : seen.contains id = false) :
    layer.degrees (layer.unvisited (seen.insert id)) + layer.degree id ≤
      layer.degrees (layer.unvisited seen) := by
  have hsublist : (layer.unvisited (seen.insert id)).Sublist (layer.unvisited seen) := by
    refine List.monotone_filter_right _ fun other hother => ?_
    rw [Bool.not_eq_true', ← Bool.not_eq_true] at hother ⊢
    exact fun hseen => hother (contains_insert_of_contains hseen)
  have hmember : id ∈ layer.unvisited seen := List.mem_filter.mpr ⟨hmem, by rw [hnew]; rfl⟩
  have hout : id ∉ layer.unvisited (seen.insert id) := fun hin => by
    simp [unvisited] at hin
  have hrest := hsublist.erase id
  rw [List.erase_of_not_mem hout] at hrest
  calc layer.degrees (layer.unvisited (seen.insert id)) + layer.degree id
      ≤ layer.degrees ((layer.unvisited seen).erase id) + layer.degree id :=
        Nat.add_le_add_right ((hrest.map layer.degree).sum_le_sum fun _ _ => Nat.zero_le _) _
    _ = layer.degree id + layer.degrees ((layer.unvisited seen).erase id) := Nat.add_comm _ _
    _ = layer.degrees (layer.unvisited seen) := List.sum_map_erase layer.degree hmember

/-- The rounds of the search for a parent work towards its end.

**Proof sketch.** By the branches of the search. A vector that has been seen shortens the queue, and
a new one brings its neighbors into the queue that were before it. -/
lemma computes_parentRound (layer : Layer ε)
    (hasRoom : VectorId → List VectorId → Except ε Bool) (saturated : ε) :
    Round.Computes (layer.parentRound hasRoom saturated)
      (fun state => layer.firstWithRoom hasRoom saturated state.1 state.2) layer.parentLeft := by
  rintro ⟨seen, queue⟩
  dsimp only
  fun_cases layer.firstWithRoom hasRoom saturated seen queue with
  | case1 => exact .done
  | case2 id queue hseen =>
    rw [parentRound, if_pos hseen]
    exact .again rfl (Nat.lt_succ_self _)
  | case3 id queue hseen e he =>
    simp only [parentRound, if_neg hseen, he]
    exact .done
  | case4 id queue hseen list hlist e he =>
    simp only [parentRound, if_neg hseen, hlist, he]
    exact .done
  | case5 id queue hseen list hlist hroom =>
    simp only [parentRound, if_neg hseen, hlist, hroom]
    exact .done
  | case6 id queue hseen list hlist hroom =>
    have hless := degrees_unvisited_insert (layer.mem_of_neighbors hlist)
      (Bool.eq_false_iff.mpr hseen)
    rw [degree, hlist] at hless
    simp only [parentRound, if_neg hseen, hlist, hroom]
    refine .again rfl ?_
    simp only [parentLeft, List.length_append, List.length_cons] at hless ⊢
    omega

/-- **The search for a parent ends**: it takes one round for each vector of the queue and for each
neighbor of any vector at most, and one more. -/
theorem endsWithin_firstWithRoom (layer : Layer ε)
    (hasRoom : VectorId → List VectorId → Except ε Bool) (saturated : ε) (queue : List VectorId) :
    Round.EndsWithin (layer.parentRound hasRoom saturated)
      (layer.degrees layer.nodes + queue.length + 1) (∅, queue)
      (layer.firstWithRoom hasRoom saturated ∅ queue) := by
  have hall : layer.unvisited ∅ = layer.nodes :=
    List.filter_eq_self.mpr fun id _ => by simp
  refine (layer.computes_parentRound hasRoom saturated).endsWithin (Nat.lt_succ_of_le ?_)
  rw [parentLeft, hall]

end Layer

end Proximity

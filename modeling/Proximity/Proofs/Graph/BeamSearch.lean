import Mathlib.Data.Set.Card
import Mathlib.Logic.Relation
import Proximity.Graph.Beam
import Proximity.Proofs.Except
import Proximity.Proofs.Graph.Ordering

set_option relaxedAutoImplicit false
set_option autoImplicit false

/-!
# What a beam search finds

In a set of vectors which no neighbor list leaves, a beam search fails only if a look-up of one of
them does. What it finds misses nothing that it had no reason to miss: a vector that it has met is
in the result, or the result is full and the vector comes after all of it.

## Main definitions

* `Proximity.Layer.Closed` — a set of vectors that a walk cannot leave.
* `Proximity.Layer.Fails` — the reasons for which a walk in a set of vectors can fail.
* `Proximity.Layer.Serves` — a set of vectors that a walk can neither fail in nor leave.
* `Proximity.Layer.Measures` — a candidate carries the true distance of its vector.
* `Proximity.Beam.Keeps` — the invariant of a beam search.
* `Proximity.Layer.Finds` — what a beam search has found in the end.

## Main results

* `Proximity.Beam.Keeps.add`, `Proximity.Beam.Keeps.meet` — one more candidate keeps the invariant.
* `Proximity.Layer.ends_explore`, `Proximity.Layer.ends_beamSearch` — a search finds, or a look-up
  fails.
* `Proximity.Layer.exists_beamSearch` — where no look-up fails, a search succeeds.
* `Proximity.Layer.Finds.mem_of_reachable`, `Proximity.Layer.Finds.length_eq` — a result that is not
  full holds all that can be reached.
-/

namespace Proximity

/-! ## Layers that serve a set of vectors -/

namespace Layer

variable {ε : Type} {layer : Layer ε} {members : Set VectorId}

/-- The second vector is a neighbor of the first. -/
def Edge (layer : Layer ε) (a b : VectorId) : Prop :=
  ∃ list, layer.neighbors a = .ok list ∧ b ∈ list

/-- The candidate carries the true distance of its vector. -/
def Measures (layer : Layer ε) (candidate : Candidate) : Prop :=
  layer.distance candidate.id = .ok candidate.distance

/-- A set of vectors which no neighbor list leaves. -/
def Closed (layer : Layer ε) (members : Set VectorId) : Prop :=
  ∀ a ∈ members, ∀ b, layer.Edge a b → b ∈ members

/-- A look-up of one of the vectors fails for this reason. -/
def Fails (layer : Layer ε) (members : Set VectorId) (reason : ε) : Prop :=
  ∃ id ∈ members, layer.neighbors id = .error reason ∨ layer.distance id = .error reason

/-- A set of vectors for which every look-up succeeds and which no neighbor list leaves. -/
structure Serves (layer : Layer ε) (members : Set VectorId) : Prop where
  neighbors : ∀ id ∈ members, ∃ list, layer.neighbors id = .ok list ∧
    ∀ other ∈ list, other ∈ members
  distance : ∀ id ∈ members, ∃ d, layer.distance id = .ok d

/-- A vector has one distance only. -/
lemma Measures.eq {a b : Candidate} (ha : layer.Measures a) (hb : layer.Measures b)
    (h : a.id = b.id) : a = b := by
  unfold Measures at ha hb
  rw [h, hb] at ha
  obtain ⟨d, id⟩ := a
  obtain ⟨d', id'⟩ := b
  simp only [Except.ok.injEq] at ha h
  rw [h, ha]

/-- A vector that can be read is a candidate. -/
lemma Serves.candidate (h : layer.Serves members) {id : VectorId} (hid : id ∈ members) :
    ∃ candidate, layer.candidate id = .ok candidate ∧ candidate.id = id ∧
      layer.Measures candidate := by
  obtain ⟨d, hd⟩ := h.distance id hid
  exact ⟨⟨d, id⟩, by simp [Layer.candidate, hd], rfl, hd⟩

/-- An edge from a vector that can be read leads to another one. -/
lemma Serves.mem_of_edge (h : layer.Serves members) {a b : VectorId} (ha : a ∈ members)
    (hab : layer.Edge a b) : b ∈ members := by
  obtain ⟨list, hlist, hmem⟩ := h.neighbors a ha
  obtain ⟨list', hlist', hb⟩ := hab
  rw [hlist, Except.ok.injEq] at hlist'
  exact hmem b (hlist' ▸ hb)

/-- No edge leads out of the vectors that can be read. -/
lemma Serves.closed (h : layer.Serves members) : layer.Closed members :=
  fun _ ha _ hab => h.mem_of_edge ha hab

/-- No look-up fails among the vectors that can be read. -/
lemma Serves.not_fails (h : layer.Serves members) (reason : ε) :
    ¬ layer.Fails members reason := by
  rintro ⟨id, hid, hfails | hfails⟩
  · obtain ⟨list, hlist, _⟩ := h.neighbors id hid
    rw [hlist] at hfails
    cases hfails
  · obtain ⟨d, hd⟩ := h.distance id hid
    rw [hd] at hfails
    cases hfails

/-- Measuring a vector fails with its look-up, or gives the true distance. -/
lemma ends_candidate (layer : Layer ε) {id : VectorId} (hid : id ∈ members) :
    (layer.candidate id).Ends (layer.Fails members) fun candidate =>
      candidate.id = id ∧ layer.Measures candidate := by
  unfold candidate
  cases hd : layer.distance id with
  | error e => exact .error ⟨id, hid, .inr hd⟩
  | ok d => exact .ok ⟨rfl, hd⟩

end Layer

/-! ## The invariant -/

namespace Beam

variable {ε : Type} {layer : Layer ε} {members busy : Set VectorId} {width : Nat} {beam : Beam}

/-- The vectors that have been met, with one more. -/
@[simp]
lemma contains_visited_insert {visited : IdSet} {a b : VectorId} :
    (visited.insert a).contains b = true ↔ a = b ∨ visited.contains b = true := by
  simp [Std.TreeSet.contains_insert]

/-- A vector that is met for the first time is none of those that have been met. -/
lemma id_ne_of_new {c r : Candidate} (hnew : beam.visited.contains c.id = false)
    (hr : beam.visited.contains r.id = true) : r.id ≠ c.id := by
  intro hid
  rw [hid, hnew] at hr
  exact Bool.false_ne_true hr

/-- **The invariant of a beam search.** Everything that has been met is accounted for, and every
candidate in the result is still on the frontier, or all its neighbors have been met, or it belongs
to the vectors that the search is `busy` with. -/
structure Keeps (layer : Layer ε) (members : Set VectorId) (width : Nat) (busy : Set VectorId)
    (beam : Beam) : Prop where
  visited_mem : ∀ v, beam.visited.contains v = true → v ∈ members
  visited_measured : ∀ v, beam.visited.contains v = true → ∃ c, layer.Measures c ∧ c.id = v
  results_visited : ∀ c ∈ beam.results, beam.visited.contains c.id = true
  frontier_visited : ∀ c ∈ beam.frontier, beam.visited.contains c.id = true
  results_measured : ∀ c ∈ beam.results, layer.Measures c
  frontier_measured : ∀ c ∈ beam.frontier, layer.Measures c
  results_ascending : Candidate.Ascending beam.results
  frontier_ascending : Candidate.Ascending beam.frontier
  length_le : beam.results.length ≤ width
  covered : ∀ c, layer.Measures c → beam.visited.contains c.id = true →
    c ∈ beam.results ∨ (beam.results.length = width ∧ ∀ r ∈ beam.results, r.before c = true)
  expanded : ∀ c ∈ beam.results, c ∈ beam.frontier ∨ c.id ∈ busy ∨
    ∀ v, layer.Edge c.id v → beam.visited.contains v = true

namespace Keeps

/-- The invariant holds before anything has been met. -/
lemma empty : Keeps layer members width ∅ Beam.empty where
  visited_mem := by simp [Beam.empty]
  visited_measured := by simp [Beam.empty]
  results_visited := by simp [Beam.empty]
  frontier_visited := by simp [Beam.empty]
  results_measured := by simp [Beam.empty]
  frontier_measured := by simp [Beam.empty]
  results_ascending := List.Pairwise.nil
  frontier_ascending := List.Pairwise.nil
  length_le := Nat.zero_le _
  covered := by simp [Beam.empty]
  expanded := by simp [Beam.empty]

/-- Taking a new candidate in keeps the invariant.

**Proof sketch.** The new result is the beginning of the old one with the candidate in its place.
What is cut off comes after all that stays, and what came after all of the old result also comes
after the candidate if that stays, because then the last of the old result is cut off. -/
theorem add (h : Keeps layer members width busy beam) {c : Candidate} (hc : layer.Measures c)
    (hmem : c.id ∈ members) (hnew : beam.visited.contains c.id = false) :
    Keeps layer members width busy (beam.add width c) := by
  have hresults : ∀ r ∈ beam.results, r.id ≠ c.id := fun r hr =>
    id_ne_of_new hnew (h.results_visited r hr)
  have hfrontier : ∀ r ∈ beam.frontier, r.id ≠ c.id := fun r hr =>
    id_ne_of_new hnew (h.frontier_visited r hr)
  have hasc := Candidate.ascending_insert h.results_ascending hresults
  exact {
    visited_mem := by
      intro v hv
      rcases contains_visited_insert.mp hv with rfl | hv
      · exact hmem
      · exact h.visited_mem v hv
    visited_measured := by
      intro v hv
      rcases contains_visited_insert.mp hv with rfl | hv
      · exact ⟨c, hc, rfl⟩
      · exact h.visited_measured v hv
    results_visited := by
      intro r hr
      rcases Candidate.mem_insert.mp (List.mem_of_mem_take hr) with rfl | hr
      · exact contains_visited_insert.mpr (.inl rfl)
      · exact contains_visited_insert.mpr (.inr (h.results_visited r hr))
    frontier_visited := by
      intro r hr
      rcases Candidate.mem_insert.mp hr with rfl | hr
      · exact contains_visited_insert.mpr (.inl rfl)
      · exact contains_visited_insert.mpr (.inr (h.frontier_visited r hr))
    results_measured := by
      intro r hr
      rcases Candidate.mem_insert.mp (List.mem_of_mem_take hr) with rfl | hr
      · exact hc
      · exact h.results_measured r hr
    frontier_measured := by
      intro r hr
      rcases Candidate.mem_insert.mp hr with rfl | hr
      · exact hc
      · exact h.frontier_measured r hr
    results_ascending := hasc.take width
    frontier_ascending := Candidate.ascending_insert h.frontier_ascending hfrontier
    length_le := by
      rw [Beam.add, List.length_take]
      exact Nat.min_le_left _ _
    covered := by
      intro x hx hvisited
      rcases contains_visited_insert.mp hvisited with hid | hvisited
      · obtain rfl := hc.eq hx hid
        exact hasc.mem_take_or (Candidate.mem_insert.mpr (.inl rfl)) width
      rcases h.covered x hx hvisited with hin | ⟨hfull, hafter⟩
      · exact hasc.mem_take_or (Candidate.mem_insert.mpr (.inr hin)) width
      · exact .inr ⟨by simp [Beam.add, hfull], fun r hr =>
          hasc.before_of_mem_take_insert hfull hafter hr⟩
    expanded := by
      intro r hr
      rcases Candidate.mem_insert.mp (List.mem_of_mem_take hr) with rfl | hr
      · exact .inl (Candidate.mem_insert.mpr (.inl rfl))
      rcases h.expanded r hr with hin | hbusy | hdone
      · exact .inl (Candidate.mem_insert.mpr (.inr hin))
      · exact .inr (.inl hbusy)
      · exact .inr (.inr fun v hv => contains_visited_insert.mpr (.inr (hdone v hv))) }

/-- Passing over a candidate that comes after all of a full result keeps the invariant.

**Proof sketch.** The candidate joins what has been met, and all of the result comes before it. -/
lemma pass (h : Keeps layer members width busy beam) {c : Candidate} (hc : layer.Measures c)
    (hmem : c.id ∈ members) (hfull : beam.results.length = width)
    (hafter : ∀ r ∈ beam.results, r.before c = true) :
    Keeps layer members width busy { beam with visited := beam.visited.insert c.id } :=
  { h with
    visited_mem := by
      intro v hv
      rcases contains_visited_insert.mp hv with rfl | hv
      · exact hmem
      · exact h.visited_mem v hv
    visited_measured := by
      intro v hv
      rcases contains_visited_insert.mp hv with rfl | hv
      · exact ⟨c, hc, rfl⟩
      · exact h.visited_measured v hv
    results_visited := fun r hr => contains_visited_insert.mpr (.inr (h.results_visited r hr))
    frontier_visited := fun r hr => contains_visited_insert.mpr (.inr (h.frontier_visited r hr))
    covered := by
      intro x hx hvisited
      rcases contains_visited_insert.mp hvisited with hid | hvisited
      · obtain rfl := hc.eq hx hid
        exact .inr ⟨hfull, hafter⟩
      · exact h.covered x hx hvisited
    expanded := by
      intro r hr
      refine (h.expanded r hr).imp_right (Or.imp_right fun hdone v hv => ?_)
      exact contains_visited_insert.mpr (.inr (hdone v hv)) }

/-- A new candidate that is not taken comes after all of a full result.

**Proof sketch.** The last candidate of a full result comes before the new one, and the others come
before the last. -/
lemma full_of_not_takes (h : Keeps layer members width busy beam) {c : Candidate}
    (hnew : beam.visited.contains c.id = false) (htakes : beam.takes width c = false) :
    beam.results.length = width ∧ ∀ r ∈ beam.results, r.before c = true := by
  rw [Beam.takes, Bool.or_eq_false_iff, decide_eq_false_iff_not, Nat.not_lt] at htakes
  obtain ⟨hfull, hlast⟩ := htakes
  refine ⟨Nat.le_antisymm h.length_le hfull, fun r hr => ?_⟩
  cases hw : beam.results.getLast? with
  | none =>
    rw [List.getLast?_eq_none_iff.mp hw] at hr
    exact absurd hr List.not_mem_nil
  | some worst =>
    rw [hw] at hlast
    have hworst : worst ∈ beam.results := List.mem_of_getLast? hw
    have hne := id_ne_of_new hnew (h.results_visited worst hworst)
    have hwc : worst.before c = true :=
      (Candidate.before_or_before hne).resolve_right (by simp [hlast])
    exact Candidate.before_of_notAfter_of_before (h.results_ascending.notAfter_getLast hw hr) hwc

/-- Meeting a new candidate keeps the invariant. -/
theorem meet (h : Keeps layer members width busy beam) {c : Candidate} (hc : layer.Measures c)
    (hmem : c.id ∈ members) (hnew : beam.visited.contains c.id = false) :
    Keeps layer members width busy (beam.meet width c) := by
  unfold Beam.meet
  split
  · exact h.add hc hmem hnew
  · next htakes =>
    obtain ⟨hfull, hafter⟩ := h.full_of_not_takes hnew (Bool.eq_false_iff.mpr htakes)
    exact h.pass hc hmem hfull hafter

/-- Meeting a candidate adds its name to those that have been met. -/
lemma contains_visited_meet {c : Candidate} {v : VectorId} :
    (beam.meet width c).visited.contains v = true ↔
      c.id = v ∨ beam.visited.contains v = true := by
  unfold Beam.meet
  split <;> exact contains_visited_insert

/-- Taking in some entries keeps the invariant, and all of them have been met.

**Proof sketch.** Induction on the entries; one that has been met before changes nothing. -/
lemma foldl_enter {entries : List Candidate} :
    ∀ {beam : Beam}, Keeps layer members width ∅ beam →
      (∀ e ∈ entries, e.id ∈ members ∧ layer.Measures e) →
      Keeps layer members width ∅ (entries.foldl (enter width) beam) ∧
        ∀ v, (beam.visited.contains v = true ∨ ∃ e ∈ entries, e.id = v) →
          (entries.foldl (enter width) beam).visited.contains v = true := by
  induction entries with
  | nil => exact fun h _ => ⟨h, fun v hv => by simpa using hv⟩
  | cons e entries ih =>
    intro beam h hentries
    obtain ⟨hmem, hmeasured⟩ := hentries e (by simp)
    have hrest : ∀ e ∈ entries, e.id ∈ members ∧ layer.Measures e :=
      fun e he => hentries e (by simp [he])
    have henter : Keeps layer members width ∅ (beam.enter width e) ∧
        ∀ v, beam.visited.contains v = true ∨ e.id = v →
          (beam.enter width e).visited.contains v = true := by
      unfold Beam.enter
      split
      · next hold => exact ⟨h, fun v hv => hv.elim (fun hv => hv) fun hv => hv ▸ hold⟩
      · next hnew =>
        rw [Bool.not_eq_true] at hnew
        exact ⟨h.add hmeasured hmem hnew, fun v hv => contains_visited_insert.mpr hv.symm⟩
    obtain ⟨hkeeps, hvisited⟩ := ih henter.1 hrest
    refine ⟨hkeeps, fun v hv => hvisited v ?_⟩
    rcases hv with hv | ⟨e', he', rfl⟩
    · exact .inl (henter.2 v (.inl hv))
    · rcases List.mem_cons.mp he' with rfl | he'
      · exact .inl (henter.2 _ (.inr rfl))
      · exact .inr ⟨e', he', rfl⟩

/-- Looking at the nearest candidate of the frontier makes the search busy with it. -/
lemma pop (h : Keeps layer members width ∅ beam) {nearest : Candidate}
    {frontier : List Candidate} (hf : beam.frontier = nearest :: frontier) :
    Keeps layer members width {nearest.id} { beam with frontier } :=
  { h with
    frontier_visited := fun c hc => h.frontier_visited c (by simp [hf, hc])
    frontier_measured := fun c hc => h.frontier_measured c (by simp [hf, hc])
    frontier_ascending := (List.pairwise_cons.mp (hf ▸ h.frontier_ascending)).2
    expanded := by
      intro c hc
      rcases h.expanded c hc with hin | hbusy | hdone
      · rw [hf] at hin
        rcases List.mem_cons.mp hin with rfl | hin
        · exact .inr (.inl rfl)
        · exact .inl hin
      · exact absurd hbusy (Set.notMem_empty _)
      · exact .inr (.inr hdone) }

/-- Once all neighbors of a candidate have been met, the search is no longer busy with it. -/
lemma finish (h : Keeps layer members width busy beam)
    (hdone : ∀ a ∈ busy, ∀ v, layer.Edge a v → beam.visited.contains v = true) :
    Keeps layer members width ∅ beam :=
  { h with
    expanded := by
      intro c hc
      rcases h.expanded c hc with hin | hbusy | hvisited
      · exact .inl hin
      · exact .inr (.inr (hdone c.id hbusy))
      · exact .inr (.inr hvisited) }

end Keeps

end Beam

/-! ## The search -/

namespace Layer

open Beam

variable {ε : Type} {layer : Layer ε} {members busy : Set VectorId} {width : Nat} {beam : Beam}

/-- What a beam search that has met some vectors has found in the end: candidates in ascending
order, such that each vector that has been met, and each neighbor of a vector found, is found or
comes after all that is found and the result is full. -/
structure Finds (layer : Layer ε) (members : Set VectorId) (width : Nat) (met : Set VectorId)
    (found : List Candidate) : Prop where
  ascending : Candidate.Ascending found
  measured : ∀ c ∈ found, layer.Measures c
  mem : ∀ c ∈ found, c.id ∈ members
  length_le : found.length ≤ width
  covered : ∀ c, layer.Measures c → c.id ∈ met →
    c ∈ found ∨ (found.length = width ∧ ∀ r ∈ found, r.before c = true)
  closed : ∀ a ∈ found, ∀ c, layer.Measures c → layer.Edge a.id c.id →
    c ∈ found ∨ (found.length = width ∧ ∀ r ∈ found, r.before c = true)
  edge_measured : ∀ a ∈ found, ∀ v, layer.Edge a.id v → ∃ c, layer.Measures c ∧ c.id = v

/-- The vectors that a search has met. -/
def visitedSet (visited : IdSet) : Set VectorId :=
  {v | visited.contains v = true}

/-- When every candidate in the result has been looked at, the result is found. -/
lemma finds_of_keeps (h : Keeps layer members width busy beam)
    (hdone : ∀ c ∈ beam.results, ∀ v, layer.Edge c.id v → beam.visited.contains v = true) :
    layer.Finds members width (visitedSet beam.visited) beam.results where
  ascending := h.results_ascending
  measured := h.results_measured
  mem c hc := h.visited_mem c.id (h.results_visited c hc)
  length_le := h.length_le
  covered := h.covered
  closed a ha c hc hac := h.covered c hc (hdone a ha c.id hac)
  edge_measured a ha v hav := h.visited_measured v (hdone a ha v hav)

/-- A search that has met more has met less. -/
lemma Finds.mono {some all : Set VectorId} {found : List Candidate}
    (h : layer.Finds members width all found) (hle : some ⊆ all) :
    layer.Finds members width some found :=
  { h with covered := fun c hc hv => h.covered c hc (hle hv) }

/-- Meeting a vector keeps the invariant. -/
lemma ends_visit (h : Keeps layer members width busy beam) {id : VectorId}
    (hid : id ∈ members) :
    (layer.visit width beam id).Ends (layer.Fails members) fun next =>
      Keeps layer members width busy next ∧
        ∀ v, (beam.visited.contains v = true ∨ id = v) → next.visited.contains v = true := by
  unfold visit
  split
  · next hold => exact .ok ⟨h, fun v hv => hv.elim (fun hv => hv) fun hv => hv ▸ hold⟩
  · next hnew =>
    refine (layer.ends_candidate hid).bind ?_
    rintro c ⟨rfl, hmeasured⟩
    exact .ok ⟨h.meet hmeasured hid (Bool.eq_false_iff.mpr hnew),
      fun v hv => Keeps.contains_visited_meet.mpr hv.symm⟩

/-- Looking at neighbors keeps the invariant, and then all of them have been met. -/
lemma ends_foldlM_visit {list : List VectorId} :
    ∀ {beam : Beam}, Keeps layer members width busy beam → (∀ id ∈ list, id ∈ members) →
      (list.foldlM (layer.visit width) beam).Ends (layer.Fails members) fun next =>
        Keeps layer members width busy next ∧
          ∀ v, (beam.visited.contains v = true ∨ v ∈ list) → next.visited.contains v = true := by
  induction list with
  | nil => exact fun h _ => .ok ⟨h, fun v hv => by simpa using hv⟩
  | cons id list ih =>
    intro beam h hlist
    rw [List.foldlM_cons]
    refine (ends_visit h (hlist id (by simp))).bind fun between ⟨hbetween, hvisited⟩ => ?_
    refine (ih hbetween fun id hid => hlist id (by simp [hid])).imp (fun _ he => he)
      fun next ⟨hnext, hvisited'⟩ => ⟨hnext, fun v hv => ?_⟩
    rcases hv with hv | hv
    · exact hvisited' v (.inl (hvisited v (.inl hv)))
    · rcases List.mem_cons.mp hv with rfl | hv
      · exact hvisited' v (.inl (hvisited v (.inr rfl)))
      · exact hvisited' v (.inr hv)

/-- Looking at the neighbors of the nearest candidate keeps the invariant. -/
lemma ends_expand (hclosed : layer.Closed members) (h : Keeps layer members width ∅ beam)
    {nearest : Candidate} {frontier : List Candidate} (hf : beam.frontier = nearest :: frontier) :
    (layer.expand width { beam with frontier } nearest).Ends (layer.Fails members) fun next =>
      Keeps layer members width ∅ next ∧
        ∀ v, beam.visited.contains v = true → next.visited.contains v = true := by
  have hnearest : nearest.id ∈ members :=
    h.visited_mem _ (h.frontier_visited nearest (by simp [hf]))
  unfold expand
  cases hlist : layer.neighbors nearest.id with
  | error e => exact .error ⟨nearest.id, hnearest, .inl hlist⟩
  | ok list =>
    have hmem : ∀ id ∈ list, id ∈ members := fun id hid =>
      hclosed nearest.id hnearest id ⟨list, hlist, hid⟩
    refine (ends_foldlM_visit (h.pop hf) hmem).imp (fun _ he => he) fun next ⟨hnext, hvisited⟩ =>
      ⟨hnext.finish ?_, fun v hv => hvisited v (.inl hv)⟩
    rintro a rfl v ⟨list', hlist', hv⟩
    rw [hlist, Except.ok.injEq] at hlist'
    exact hvisited v (.inr (hlist' ▸ hv))

/-- **A search that goes on from a state with the invariant finds, or a look-up fails**, and
everything that has been met is accounted for in what it finds.

**Proof sketch.** Induction along the search. It ends when the frontier is empty, and then all of
the result has been looked at; or when the nearest candidate of the frontier comes after the last
one of a full result, and then no candidate of the result is on the frontier any more. -/
theorem ends_explore (hclosed : layer.Closed members) (h : Keeps layer members width ∅ beam) :
    (layer.explore width beam).Ends (layer.Fails members)
      (layer.Finds members width (visitedSet beam.visited)) := by
  fun_induction layer.explore width beam with
  | case1 beam hf =>
    refine .ok (finds_of_keeps h fun c hc v hv => ?_)
    rcases h.expanded c hc with hin | hbusy | hdone
    · simp [hf] at hin
    · exact absurd hbusy (Set.notMem_empty _)
    · exact hdone v hv
  | case2 beam nearest frontier hf hexcludes =>
    refine .ok (finds_of_keeps h fun c hc v hv => ?_)
    rcases h.expanded c hc with hin | hbusy | hdone
    · exfalso
      rw [Beam.excludes, Bool.and_eq_true] at hexcludes
      cases hw : beam.results.getLast? with
      | none => simp [hw] at hexcludes
      | some worst =>
        rw [hw] at hexcludes
        have hcworst := h.results_ascending.notAfter_getLast hw hc
        have hworst : worst.before c = true := by
          rw [hf] at hin
          rcases List.mem_cons.mp hin with rfl | hin
          · exact hexcludes.2
          · exact Candidate.before_trans hexcludes.2
              ((List.pairwise_cons.mp (hf ▸ h.frontier_ascending)).1 c hin)
        rw [Candidate.notAfter_iff, hworst] at hcworst
        exact absurd hcworst.symm Bool.false_ne_true
    · exact absurd hbusy (Set.notMem_empty _)
    · exact hdone v hv
  | case3 beam nearest frontier hf _ e he =>
    have hends := ends_expand hclosed h hf
    rw [he] at hends
    exact .error hends.of_error
  | case4 beam nearest frontier hf _ next hexpand ih =>
    have hends := ends_expand hclosed h hf
    rw [hexpand] at hends
    obtain ⟨hkeeps, hvisited⟩ := hends.of_ok
    exact (ih hkeeps).imp (fun _ he => he) fun found hfinds => hfinds.mono hvisited

/-- **A beam search** from entries that carry their true distances finds, or a look-up fails. -/
theorem ends_beamSearch (hclosed : layer.Closed members) {entries : List Candidate}
    (hentries : ∀ e ∈ entries, e.id ∈ members ∧ layer.Measures e) (width : Nat) :
    (layer.beamSearch width entries).Ends (layer.Fails members)
      (layer.Finds members (max width 1) {v | ∃ e ∈ entries, e.id = v}) := by
  have hempty : Keeps layer members (max width 1) ∅ Beam.empty := Keeps.empty
  obtain ⟨hkeeps, hvisited⟩ := Keeps.foldl_enter hempty hentries
  exact (ends_explore hclosed hkeeps).imp (fun _ he => he) fun found hfinds =>
    hfinds.mono fun v hv => hvisited v (.inr hv)

/-! ## Where no look-up fails -/

/-- Meeting a vector keeps the invariant. -/
lemma exists_visit (hserves : layer.Serves members) (h : Keeps layer members width busy beam)
    {id : VectorId} (hid : id ∈ members) :
    ∃ next, layer.visit width beam id = .ok next ∧ Keeps layer members width busy next ∧
      ∀ v, (beam.visited.contains v = true ∨ id = v) → next.visited.contains v = true :=
  (ends_visit h hid).exists_ok hserves.not_fails

/-- Looking at the neighbors of the nearest candidate keeps the invariant. -/
lemma exists_expand (hserves : layer.Serves members) (h : Keeps layer members width ∅ beam)
    {nearest : Candidate} {frontier : List Candidate} (hf : beam.frontier = nearest :: frontier) :
    ∃ next, layer.expand width { beam with frontier } nearest = .ok next ∧
      Keeps layer members width ∅ next ∧
      ∀ v, beam.visited.contains v = true → next.visited.contains v = true :=
  (ends_expand hserves.closed h hf).exists_ok hserves.not_fails

/-- **A beam search succeeds** from entries that carry their true distances. -/
theorem exists_beamSearch (hserves : layer.Serves members) {entries : List Candidate}
    (hentries : ∀ e ∈ entries, e.id ∈ members ∧ layer.Measures e) (width : Nat) :
    ∃ found, layer.beamSearch width entries = .ok found ∧
      layer.Finds members (max width 1) {v | ∃ e ∈ entries, e.id = v} found :=
  (ends_beamSearch hserves.closed hentries width).exists_ok hserves.not_fails

/-! ## What is found -/

/-- The vectors that a list names once each are as many as the list is long. -/
lemma ncard_of_nodup {ids : List VectorId} (h : ids.Nodup) :
    {id | id ∈ ids}.ncard = ids.length := by
  rw [← List.toFinset_card_of_nodup h, ← Set.ncard_coe_finset, List.coe_toFinset]

namespace Finds

variable {entries found : List Candidate} {met : Set VectorId}

/-- A search finds no vector twice. -/
lemma ids_nodup (h : layer.Finds members width met found) :
    (found.map Candidate.id).Nodup := by
  refine List.Nodup.map_on (fun a ha b hb hab => ?_) h.ascending.nodup
  exact (h.measured a ha).eq (h.measured b hb) hab

/-- A search with a beam of positive width that has met something finds something. -/
lemma ne_nil (h : layer.Finds members width met found) (hwidth : 0 < width) {e : Candidate}
    (hmeasured : layer.Measures e) (he : e.id ∈ met) : found ≠ [] := by
  rintro rfl
  rcases h.covered e hmeasured he with hin | ⟨hfull, _⟩
  · exact List.not_mem_nil hin
  · rw [List.length_nil] at hfull
    omega

/-- **A result that is not full holds all that can be reached** from what has been met.

**Proof sketch.** Induction on the walk: a candidate of a result that is not full has all its
neighbors in it. -/
theorem mem_of_reachable (h : layer.Finds members width met found) (hlt : found.length < width)
    {e : Candidate} (hmeasured : layer.Measures e) (he : e.id ∈ met) {v : VectorId}
    (hv : Relation.ReflTransGen layer.Edge e.id v) : ∃ c ∈ found, c.id = v := by
  induction hv with
  | refl =>
    rcases h.covered e hmeasured he with hin | ⟨hfull, _⟩
    · exact ⟨e, hin, rfl⟩
    · omega
  | tail _ hedge ih =>
    obtain ⟨a, ha, rfl⟩ := ih
    obtain ⟨c, hc, rfl⟩ := h.edge_measured a ha _ hedge
    rcases h.closed a ha c hc hedge with hin | ⟨hfull, _⟩
    · exact ⟨c, hin, rfl⟩
    · omega

/-- **A result is as long as the width and the members allow** if all of them can be reached from
what has been met.

**Proof sketch.** The names in the result are different members. If there is room to spare, all
members are in it. -/
theorem length_eq (h : layer.Finds members width met found) (hfinite : members.Finite)
    {e : Candidate} (hmeasured : layer.Measures e) (he : e.id ∈ met)
    (hreach : ∀ v ∈ members, Relation.ReflTransGen layer.Edge e.id v) :
    found.length = min width members.ncard := by
  have hcount : {v | v ∈ found.map Candidate.id}.ncard = found.length := by
    rw [ncard_of_nodup h.ids_nodup, List.length_map]
  have hle : found.length ≤ members.ncard := by
    refine hcount ▸ Set.ncard_le_ncard (fun v hv => ?_) hfinite
    obtain ⟨c, hc, rfl⟩ := List.mem_map.mp hv
    exact h.mem c hc
  have hall : found.length < width → members.ncard ≤ found.length := by
    intro hlt
    refine hcount ▸ Set.ncard_le_ncard (fun v hv => ?_) (List.finite_toSet _)
    obtain ⟨c, hc, rfl⟩ := h.mem_of_reachable hlt hmeasured he (hreach v hv)
    exact List.mem_map_of_mem hc
  have hwidth := h.length_le
  omega

end Finds

end Layer

end Proximity

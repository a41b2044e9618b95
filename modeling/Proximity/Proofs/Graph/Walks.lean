import Proximity.Graph.Descent
import Proximity.Graph.Parent
import Proximity.Proofs.Graph.BeamSearch

set_option relaxedAutoImplicit false
set_option autoImplicit false

/-!
# The other walks over a layer

On a set of vectors whose look-ups all succeed and which no neighbor list leaves, a greedy descent
ends at a candidate of the set that carries its true distance, and the search for a parent finds a
node with room if there is one that can be reached.

## Main results

* `Proximity.Layer.exists_descend`, `Proximity.exists_descendLayers` — descents succeed.
* `Proximity.Layer.exists_firstWithRoom` — the search for a parent succeeds.
-/

namespace Proximity

namespace Layer

variable {ε : Type} {layer : Layer ε} {members : Set VectorId}

/-! ## Greedy descent -/

/-- Comparing a candidate with a list of vectors of the set gives a candidate of the set. -/
lemma exists_foldlM_better (hserves : layer.Serves members) {list : List VectorId}
    (hlist : ∀ id ∈ list, id ∈ members) {start : Candidate} (hmem : start.id ∈ members)
    (hmeasured : layer.Measures start) :
    ∃ best, list.foldlM layer.better start = .ok best ∧ best.id ∈ members ∧
      layer.Measures best := by
  refine Except.foldlM_eq_ok (fun best => best.id ∈ members ∧ layer.Measures best)
    (fun id hid best hbest => ?_) ⟨hmem, hmeasured⟩
  obtain ⟨candidate, hcandidate, rfl, htrue⟩ := hserves.candidate (hlist id hid)
  refine ⟨if candidate.before best then candidate else best, ?_, ?_⟩
  · rw [better, hcandidate]
    rfl
  · split
    · exact ⟨hlist _ hid, htrue⟩
    · exact hbest

/-- One step of a descent through vectors that can be read succeeds, and stays among them. -/
lemma exists_improve (hserves : layer.Serves members) {start : Candidate}
    (hmem : start.id ∈ members) (hmeasured : layer.Measures start) :
    ∃ best, layer.improve start = .ok best ∧ best.id ∈ members ∧ layer.Measures best := by
  obtain ⟨list, hneighbors, hlist⟩ := hserves.neighbors start.id hmem
  obtain ⟨best, hfold, hbest⟩ := exists_foldlM_better hserves hlist hmem hmeasured
  exact ⟨best, by rw [improve, hneighbors, Except.ok_bind, hfold], hbest⟩

/-- **A greedy descent succeeds** and stays in the set.

**Proof sketch.** Induction along the descent; each step succeeds and stays in the set. -/
theorem exists_descend (hserves : layer.Serves members) {start : Candidate}
    (hmem : start.id ∈ members) (hmeasured : layer.Measures start) :
    ∃ best, layer.descend start = .ok best ∧ best.id ∈ members ∧ layer.Measures best := by
  fun_induction layer.descend start with
  | case1 start e he =>
    obtain ⟨best, hbest, _⟩ := exists_improve hserves hmem hmeasured
    rw [hbest] at he
    exact absurd he (by simp)
  | case2 start best himprove _ ih =>
    obtain ⟨best', hbest', hmem', hmeasured'⟩ := exists_improve hserves hmem hmeasured
    rw [hbest', Except.ok.injEq] at himprove
    subst himprove
    exact ih hmem' hmeasured'
  | case3 start best _ _ => exact ⟨start, rfl, hmem, hmeasured⟩

/-! ## The search for a parent -/

/-- **The search for a parent succeeds** if a node with room can be reached from what has been seen
or waits in the queue.

**Proof sketch.** Induction along the search. Nothing that has been seen has room, and the neighbors
of what has been seen have been seen or wait. Were the queue to run empty, then everything that can
be reached would have been seen, the node with room included. -/
theorem exists_firstWithRoom (hserves : layer.Serves members)
    {hasRoom : VectorId → List VectorId → Except ε Bool} {saturated : ε} {room : VectorId → Bool}
    (hroom : ∀ id ∈ members, ∀ list, layer.neighbors id = .ok list →
      hasRoom id list = .ok (room id))
    {seen : IdSet} {queue : List VectorId} (hqueue : ∀ id ∈ queue, id ∈ members)
    (hseen : ∀ v, seen.contains v = true → room v = false ∧
      ∀ u, layer.Edge v u → seen.contains u = true ∨ u ∈ queue)
    (hgoal : ∃ u w, (seen.contains u = true ∨ u ∈ queue) ∧
      Relation.ReflTransGen layer.Edge u w ∧ room w = true) :
    ∃ id, layer.firstWithRoom hasRoom saturated seen queue = .ok id ∧ id ∈ members ∧
      room id = true := by
  fun_induction layer.firstWithRoom hasRoom saturated seen queue with
  | case1 seen =>
    exfalso
    obtain ⟨u, w, hu, hreach, hw⟩ := hgoal
    have hclosed : seen.contains w = true := by
      clear hw
      induction hreach with
      | refl => exact hu.resolve_right List.not_mem_nil
      | tail _ hedge ih => exact ((hseen _ ih).2 _ hedge).resolve_right List.not_mem_nil
    rw [(hseen w hclosed).1] at hw
    exact Bool.false_ne_true hw
  | case2 seen id queue hold ih =>
    refine ih (fun v hv => hqueue v (by simp [hv])) (fun v hv => ?_) ?_
    · refine ⟨(hseen v hv).1, fun u hu => ?_⟩
      rcases (hseen v hv).2 u hu with hu | hu
      · exact .inl hu
      · exact (List.mem_cons.mp hu).elim (fun h => .inl (h ▸ hold)) .inr
    · obtain ⟨u, w, hu, hreach, hw⟩ := hgoal
      refine ⟨u, w, ?_, hreach, hw⟩
      rcases hu with hu | hu
      · exact .inl hu
      · exact (List.mem_cons.mp hu).elim (fun h => .inl (h ▸ hold)) .inr
  | case3 seen id queue _ e he =>
    obtain ⟨list, hlist, _⟩ := hserves.neighbors id (hqueue id (by simp))
    rw [hlist] at he
    exact absurd he (by simp)
  | case4 seen id queue _ list hlist e he =>
    rw [hroom id (hqueue id (by simp)) list hlist] at he
    exact absurd he (by simp)
  | case5 seen id queue _ list hlist hfree =>
    rw [hroom id (hqueue id (by simp)) list hlist, Except.ok.injEq] at hfree
    exact ⟨id, rfl, hqueue id (by simp), hfree⟩
  | case6 seen id queue hnew list hlist hfull ih =>
    have hid : id ∈ members := hqueue id (by simp)
    rw [hroom id hid list hlist, Except.ok.injEq] at hfull
    obtain ⟨list', hlist', hlistmem⟩ := hserves.neighbors id hid
    rw [hlist, Except.ok.injEq] at hlist'
    subst hlist'
    -- What has been seen or waits before has been seen or waits after.
    have hmove : ∀ u, seen.contains u = true ∨ u ∈ id :: queue →
        (seen.insert id).contains u = true ∨ u ∈ queue ++ list := by
      rintro u (hu | hu)
      · exact .inl (Beam.contains_visited_insert.mpr (.inr hu))
      · rcases List.mem_cons.mp hu with rfl | hu
        · exact .inl (Beam.contains_visited_insert.mpr (.inl rfl))
        · exact .inr (List.mem_append_left _ hu)
    refine ih (fun v hv => ?_) (fun v hv => ?_) ?_
    · exact (List.mem_append.mp hv).elim (fun hv => hqueue v (by simp [hv])) (hlistmem v)
    · rcases Beam.contains_visited_insert.mp hv with rfl | hv
      · refine ⟨hfull, ?_⟩
        rintro u ⟨list', hlist', hu⟩
        rw [hlist, Except.ok.injEq] at hlist'
        exact .inr (List.mem_append_right _ (hlist' ▸ hu))
      · exact ⟨(hseen v hv).1, fun u hu => hmove u ((hseen v hv).2 u hu)⟩
    · obtain ⟨u, w, hu, hreach, hw⟩ := hgoal
      exact ⟨u, w, hmove u hu, hreach, hw⟩

end Layer

/-! ## Descents through several layers -/

/-- **A descent through layers succeeds**: it starts on layer `top`, walks down to layer `bottom`
and ends there, or on `top` if it is below `bottom` already. Each layer holds the ones above it.

**Proof sketch.** Induction on the layers. Each layer holds those above it, so that the start of
every descent is on its layer. -/
theorem exists_descendLayers {ε : Type} {layer : Nat → Layer ε} {members : Nat → Set VectorId}
    {bottom count top : Nat} {start : Candidate}
    (hserves : ∀ k, k < bottom + count → (layer k).Serves (members k))
    (hnested : ∀ k l, k ≤ l → members l ⊆ members k)
    (hmeasures : ∀ k l candidate, (layer k).Measures candidate → (layer l).Measures candidate)
    (htop : count = 0 ∨ bottom + count ≤ top + 1) (hmem : start.id ∈ members top)
    (hmeasured : (layer 0).Measures start) :
    ∃ best, descendLayers layer bottom count start = .ok best ∧
      best.id ∈ members (min top bottom) ∧ (layer 0).Measures best := by
  induction count generalizing start top with
  | zero => exact ⟨start, rfl, hnested _ _ (Nat.min_le_left _ _) hmem, hmeasured⟩
  | succ count ih =>
    obtain ⟨between, hbetween, hmem', hmeasured'⟩ :=
      (layer (bottom + count)).exists_descend (hserves _ (by omega))
        (hnested _ top (by omega) hmem) (hmeasures _ _ _ hmeasured)
    obtain ⟨best, hbest, hmin, htrue⟩ := ih (fun k hk => hserves k (by omega)) (.inr (by omega))
      hmem' (hmeasures _ _ _ hmeasured')
    refine ⟨best, by rw [descendLayers, hbetween, Except.ok_bind, hbest], ?_, htrue⟩
    exact hnested _ _ (by omega) hmin

end Proximity

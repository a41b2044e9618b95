import Mathlib.Logic.Basic

set_option relaxedAutoImplicit false
set_option autoImplicit false

/-!
# Computations that can fail

Facts about `Except` that every operation of the library is opened with: how a sequence of steps
succeeds, that a loop over a list succeeds with an invariant that each of its steps keeps, that two
computations go the same way if their steps do, and how a computation ends if its steps end so.

## Main definitions

* `Except.Rel` — two computations that go the same way.
* `Except.Ends` — a computation that ends in certain ways only.

## Main results

* `Except.bind_eq_ok_iff` — a sequence succeeds when both of its parts do.
* `Except.foldlM_eq_ok` — a loop keeps what its steps keep.
* `Except.foldlM_preserves` — a loop that succeeds keeps what its steps keep if they succeed.
* `Except.Rel.bind`, `Except.Rel.foldlM` — two computations that go the same way, step by step.
* `Except.Ends.bind`, `Except.Ends.foldlM` — how a computation ends, step by step.
-/

namespace Except

variable {ε α β σ : Type}

/-- After a success the rest is carried out. -/
@[simp]
lemma ok_bind (a : α) (f : α → Except ε β) : ((.ok a : Except ε α) >>= f) = f a := rfl

/-- After a failure nothing is carried out. -/
@[simp]
lemma error_bind (e : ε) (f : α → Except ε β) :
    ((.error e : Except ε α) >>= f) = .error e := rfl

/-- A value alone is a success. -/
@[simp]
lemma pure_eq_ok (a : α) : (pure a : Except ε α) = .ok a := rfl

/-- An exception is a failure. -/
@[simp]
lemma throw_eq_error (e : ε) : (throw e : Except ε α) = .error e := rfl

/-- A sequence of two steps succeeds exactly if the first does and the second does from there. -/
theorem bind_eq_ok_iff {x : Except ε α} {f : α → Except ε β} {b : β} :
    x >>= f = .ok b ↔ ∃ a, x = .ok a ∧ f a = .ok b := by
  cases x with
  | error e => simp
  | ok a => simp

/-- A sequence of two steps fails if one of them does. -/
lemma bind_eq_error_iff {x : Except ε α} {f : α → Except ε β} {e : ε} :
    x >>= f = .error e ↔ x = .error e ∨ ∃ a, x = .ok a ∧ f a = .error e := by
  cases x with
  | error e' => simp
  | ok a => simp

/-- A loop that builds a list succeeds if each of its steps does. -/
lemma mapM_eq_ok {f : α → Except ε β} {g : α → β} {l : List α}
    (h : ∀ a ∈ l, f a = .ok (g a)) : l.mapM f = .ok (l.map g) := by
  induction l with
  | nil => rfl
  | cons a l ih =>
    rw [List.mapM_cons, h a (by simp), ih fun b hb => h b (by simp [hb])]
    rfl

/-- What a loop that builds a list has built comes from its steps.

**Proof sketch.** Induction on the list. -/
lemma exists_of_mapM {f : α → Except ε β} {l : List α} {results : List β}
    (h : l.mapM f = .ok results) : ∀ b ∈ results, ∃ a ∈ l, f a = .ok b := by
  induction l generalizing results with
  | nil =>
    rw [List.mapM_nil, pure_eq_ok] at h
    rw [← Except.ok.inj h]
    simp
  | cons a l ih =>
    rw [List.mapM_cons] at h
    obtain ⟨first, hfirst, h⟩ := bind_eq_ok_iff.mp h
    obtain ⟨rest, hrest, h⟩ := bind_eq_ok_iff.mp h
    rw [← Except.ok.inj h]
    intro b hb
    rcases List.mem_cons.mp hb with rfl | hb
    · exact ⟨a, by simp, hfirst⟩
    · obtain ⟨other, hother, heq⟩ := ih hrest b hb
      exact ⟨other, List.mem_cons_of_mem a hother, heq⟩

/-- Each step of a loop that has built a list has given a part of it. -/
lemma forall_of_mapM {f : α → Except ε β} {l : List α} {results : List β}
    (h : l.mapM f = .ok results) : ∀ a ∈ l, ∃ b ∈ results, f a = .ok b := by
  induction l generalizing results with
  | nil => simp
  | cons a l ih =>
    rw [List.mapM_cons] at h
    obtain ⟨first, hfirst, h⟩ := bind_eq_ok_iff.mp h
    obtain ⟨rest, hrest, h⟩ := bind_eq_ok_iff.mp h
    rw [← Except.ok.inj h]
    intro other hother
    rcases List.mem_cons.mp hother with rfl | hother
    · exact ⟨first, by simp, hfirst⟩
    · obtain ⟨b, hb, heq⟩ := ih hrest other hother
      exact ⟨b, List.mem_cons_of_mem first hb, heq⟩

/-- A filter whose test does not fail succeeds, behind what it has kept so far. -/
lemma filterAuxM_eq_ok {f : α → Except ε Bool} {p : α → Bool} {l : List α} :
    (∀ a ∈ l, f a = .ok (p a)) → ∀ kept : List α,
      List.filterAuxM f l kept = .ok ((l.filter p).reverse ++ kept) := by
  induction l with
  | nil => exact fun _ _ => rfl
  | cons a l ih =>
    intro h kept
    rw [List.filterAuxM, h a (by simp), ok_bind, ih fun b hb => h b (by simp [hb])]
    cases hp : p a <;> simp [hp]

/-- A loop that thins out a list succeeds if each of its tests does. -/
lemma filterM_eq_ok {f : α → Except ε Bool} {p : α → Bool} {l : List α}
    (h : ∀ a ∈ l, f a = .ok (p a)) : l.filterM f = .ok (l.filter p) := by
  rw [List.filterM, filterAuxM_eq_ok h, ok_bind, List.append_nil, List.reverse_reverse, pure_eq_ok]

/-- **A loop keeps what its steps keep**: if every step from a state with the invariant succeeds
and leads to such a state, then so does the whole loop. -/
theorem foldlM_eq_ok {f : σ → α → Except ε σ} (P : σ → Prop) {l : List α}
    (step : ∀ a ∈ l, ∀ s, P s → ∃ t, f s a = .ok t ∧ P t) :
    ∀ {s : σ}, P s → ∃ t, l.foldlM f s = .ok t ∧ P t := by
  induction l with
  | nil => exact fun hs => ⟨_, rfl, hs⟩
  | cons a l ih =>
    intro s hs
    obtain ⟨t, ht, hPt⟩ := step a (by simp) s hs
    obtain ⟨u, hu, hPu⟩ := ih (fun b hb => step b (by simp [hb])) hPt
    exact ⟨u, by rw [List.foldlM_cons, ht, ok_bind, hu], hPu⟩

/-- **A loop that succeeds keeps what its steps keep**, where a step need not succeed.

**Proof sketch.** Induction on the list. -/
theorem foldlM_preserves {f : σ → α → Except ε σ} (P : σ → Prop) {l : List α}
    (step : ∀ a ∈ l, ∀ s t, P s → f s a = .ok t → P t) :
    ∀ {s t : σ}, P s → l.foldlM f s = .ok t → P t := by
  induction l with
  | nil =>
    intro s t hs ht
    rwa [← Except.ok.inj ht]
  | cons a l ih =>
    intro s t hs ht
    rw [List.foldlM_cons] at ht
    obtain ⟨between, hbetween, hrest⟩ := bind_eq_ok_iff.mp ht
    exact ih (fun b hb => step b (by simp [hb])) (step a (by simp) s between hs hbetween) hrest

/-! ## Two computations -/

variable {γ δ τ : Type}

/-- **Two computations go the same way**: both fail for the same reason, or both succeed with
results that are related. -/
inductive Rel (R : α → β → Prop) : Except ε α → Except ε β → Prop
  /-- Both succeed. -/
  | ok {a : α} {b : β} (h : R a b) : Rel R (.ok a) (.ok b)
  /-- Both fail. -/
  | error (e : ε) : Rel R (.error e) (.error e)

namespace Rel

variable {R : α → β → Prop} {S : γ → δ → Prop} {x : Except ε α} {y : Except ε β}
  {f : α → Except ε γ} {g : β → Except ε δ}

/-- The values of two successes that go together are related. -/
lemma of_ok {a : α} {b : β} (h : Rel R (.ok a : Except ε α) (.ok b)) : R a b := by
  cases h with
  | ok h => exact h

/-- What is related in one way is related in a weaker one. -/
lemma imp {R' : α → β → Prop} (h : Rel R x y) (himp : ∀ a b, R a b → R' a b) : Rel R' x y := by
  cases h with
  | ok h => exact .ok (himp _ _ h)
  | error e => exact .error e

/-- Sequences go the same way if their parts do. -/
lemma bind (h : Rel R x y) (hrest : ∀ a b, R a b → Rel S (f a) (g b)) :
    Rel S (x >>= f) (y >>= g) := by
  cases h with
  | ok h => exact hrest _ _ h
  | error e => exact .error e

/-- Sequences that begin alike go the same way if the rest does. -/
lemma bind_left {f : α → Except ε γ} {g : α → Except ε δ} (x : Except ε α)
    (hrest : ∀ a, Rel S (f a) (g a)) : Rel S (x >>= f) (x >>= g) := by
  cases x with
  | ok a => exact hrest a
  | error e => exact .error e

/-- **Loops go the same way** if their steps do. -/
theorem foldlM {R : σ → τ → Prop} {f : σ → α → Except ε σ} {g : τ → α → Except ε τ} {l : List α}
    (step : ∀ a ∈ l, ∀ s t, R s t → Rel R (f s a) (g t a)) :
    ∀ {s : σ} {t : τ}, R s t → Rel R (l.foldlM f s) (l.foldlM g t) := by
  induction l with
  | nil => exact fun h => .ok h
  | cons a l ih =>
    intro s t h
    rw [List.foldlM_cons, List.foldlM_cons]
    exact (step a (by simp) s t h).bind fun s' t' h' => ih (fun b hb => step b (by simp [hb])) h'

end Rel

/-! ## Ways to end -/

/-- **How a computation ends**: it fails for a reason of one kind, or succeeds with a result of
another. -/
inductive Ends (P : ε → Prop) (Q : α → Prop) : Except ε α → Prop
  /-- It succeeds. -/
  | ok {a : α} (h : Q a) : Ends P Q (.ok a)
  /-- It fails. -/
  | error {e : ε} (h : P e) : Ends P Q (.error e)

namespace Ends

variable {P : ε → Prop} {Q : α → Prop} {R : β → Prop} {x : Except ε α} {f : α → Except ε β}

/-- The value of a success is as it must be. -/
lemma of_ok {a : α} (h : Ends P Q (.ok a : Except ε α)) : Q a := by
  cases h with
  | ok h => exact h

/-- The reason of a failure is as it must be. -/
lemma of_error {e : ε} (h : Ends P Q (.error e : Except ε α)) : P e := by
  cases h with
  | error h => exact h

/-- A weaker form of how a computation ends. -/
lemma imp {P' : ε → Prop} {Q' : α → Prop} (h : Ends P Q x) (herror : ∀ e, P e → P' e)
    (hok : ∀ a, Q a → Q' a) : Ends P' Q' x := by
  cases h with
  | ok h => exact .ok (hok _ h)
  | error h => exact .error (herror _ h)

/-- A computation that has no reason to fail succeeds. -/
lemma exists_ok (h : Ends P Q x) (hnever : ∀ e, ¬ P e) : ∃ a, x = .ok a ∧ Q a := by
  cases h with
  | ok h => exact ⟨_, rfl, h⟩
  | error h => exact absurd h (hnever _)

/-- A sequence ends so if its parts do. -/
theorem bind (h : Ends P Q x) (hrest : ∀ a, Q a → Ends P R (f a)) : Ends P R (x >>= f) := by
  cases h with
  | ok h => exact hrest _ h
  | error h => exact .error h

/-- **A loop ends so** if its steps do. -/
theorem foldlM {Q : σ → Prop} {f : σ → α → Except ε σ} {l : List α}
    (step : ∀ a ∈ l, ∀ s, Q s → Ends P Q (f s a)) :
    ∀ {s : σ}, Q s → Ends P Q (l.foldlM f s) := by
  induction l with
  | nil => exact fun h => .ok h
  | cons a l ih =>
    intro s h
    rw [List.foldlM_cons]
    exact (step a (by simp) s h).bind fun _ h' => ih (fun b hb => step b (by simp [hb])) h'

/-- A loop that builds a list ends so if its steps do. -/
lemma mapM {f : α → Except ε β} {l : List α} (step : ∀ a ∈ l, Ends P R (f a)) :
    Ends P (fun results => ∀ b ∈ results, R b) (l.mapM f) := by
  induction l with
  | nil => exact .ok (by simp)
  | cons a l ih =>
    rw [List.mapM_cons]
    refine (step a (by simp)).bind fun b hb => ?_
    refine (ih fun c hc => step c (by simp [hc])).bind fun rest hrest => .ok ?_
    exact List.forall_mem_cons.mpr ⟨hb, hrest⟩

/-- A filter fails as its test does, whatever it has kept so far. -/
lemma filterAuxM {f : α → Except ε Bool} {l : List α}
    (step : ∀ a ∈ l, Ends P (fun _ => True) (f a)) :
    ∀ kept : List α, Ends P (fun _ => True) (List.filterAuxM f l kept) := by
  induction l with
  | nil => exact fun _ => .ok trivial
  | cons a l ih =>
    intro kept
    rw [List.filterAuxM]
    exact (step a (by simp)).bind fun keep _ => ih (fun b hb => step b (by simp [hb])) _

/-- A loop that thins out a list ends so if its tests do. -/
lemma filterM {f : α → Except ε Bool} {l : List α}
    (step : ∀ a ∈ l, Ends P (fun _ => True) (f a)) :
    Ends P (fun _ => True) (l.filterM f) := by
  rw [List.filterM]
  exact (filterAuxM step []).bind fun _ _ => .ok trivial

end Ends

end Except

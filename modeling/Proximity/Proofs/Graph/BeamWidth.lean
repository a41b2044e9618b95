import Proximity.Proofs.Graph.BeamSearch

set_option relaxedAutoImplicit false
set_option autoImplicit false

/-!
# Beams of different widths

Two beam searches that start from the same entries look at the same vectors for as long as the
narrow one goes on. Until then the narrow result is the beginning of the wide one. What the wide
search does afterwards makes its own result better at every place, so that a wider beam never finds
anything worse.

## Main definitions

* `Proximity.Candidate.Improves` — one list of candidates is at least as good as another.
* `Proximity.Beam.Abreast` — a narrow and a wide beam that have met the same vectors.

## Main results

* `Proximity.Layer.explore_improves` — a search that goes on makes its result better.
* `Proximity.Beam.Abreast.exists_expand` — the two searches look at the same candidate.
* `Proximity.Layer.beamSearch_improves` — a wider beam never finds anything worse.
-/

namespace Proximity

/-! ## Lists that are no worse -/

namespace Candidate

/-- At each place of the second list, the first one has a candidate that does not come after the one
there. -/
def Improves (better worse : List Candidate) : Prop :=
  ∀ (i : Nat) (b : Candidate), worse[i]? = some b → ∃ a, better[i]? = some a ∧ a.notAfter b = true

namespace Improves

variable {best better worse list : List Candidate}

/-- A list is as good as itself. -/
lemma refl (list : List Candidate) : Improves list list :=
  fun _ b hb => ⟨b, hb, notAfter_refl b⟩

/-- To be no worse is transitive. -/
lemma trans (h : Improves best better) (h' : Improves better worse) : Improves best worse := by
  intro i c hc
  obtain ⟨b, hb, hbc⟩ := h' i c hc
  obtain ⟨a, ha, hab⟩ := h i b hb
  exact ⟨a, ha, notAfter_trans hab hbc⟩

/-- A list that is no worse is at least as long. -/
lemma length_le (h : Improves better worse) : worse.length ≤ better.length := by
  by_contra hlt
  have hsome := List.getElem?_eq_getElem (Nat.not_le.mp hlt)
  obtain ⟨a, ha, _⟩ := h _ _ hsome
  obtain ⟨hself, _⟩ := List.getElem?_eq_some_iff.mp ha
  exact Nat.lt_irrefl _ hself

/-- A list is no worse than its beginning. -/
lemma take (list : List Candidate) (count : Nat) : Improves list (list.take count) := by
  intro i b hb
  obtain ⟨hlt, _⟩ := List.getElem?_eq_some_iff.mp hb
  rw [List.length_take] at hlt
  rw [List.getElem?_take_of_lt (by omega)] at hb
  exact ⟨b, hb, notAfter_refl b⟩

/-- What is no worse than a list of at most `count` candidates is no worse when it is cut off behind
the first `count`. -/
lemma take_of_length_le (h : Improves better worse) {count : Nat} (hle : worse.length ≤ count) :
    Improves (better.take count) worse := by
  intro i b hb
  obtain ⟨hlt, _⟩ := List.getElem?_eq_some_iff.mp hb
  rw [List.getElem?_take_of_lt (by omega)]
  exact h i b hb

end Improves

/-- **Putting one more candidate into its place** makes an ascending list better.

**Proof sketch.** Induction on the list: the candidate comes before the first one, or the rest gets
better. -/
theorem improves_insert {list : List Candidate} (h : Ascending list) (candidate : Candidate) :
    Improves (candidate.insert list) list := by
  induction list with
  | nil =>
    intro i b hb
    simp at hb
  | cons first rest ih =>
    obtain ⟨hfirst, hrest⟩ := List.pairwise_cons.mp h
    rw [insert]
    split
    · next hbefore =>
      intro i b hb
      cases i with
      | zero =>
        obtain rfl := Option.some.inj hb
        exact ⟨candidate, rfl, notAfter_of_before hbefore⟩
      | succ i =>
        -- Behind the candidate each place has what stood one place before.
        obtain ⟨hlt, rfl⟩ := List.getElem?_eq_some_iff.mp hb
        have hlt' : i < (first :: rest).length := Nat.lt_of_succ_lt hlt
        refine ⟨(first :: rest)[i], by simp, notAfter_of_before ?_⟩
        exact List.pairwise_iff_getElem.mp h i (i + 1) hlt' hlt (Nat.lt_succ_self i)
    · intro i b hb
      cases i with
      | zero => exact ⟨b, hb, notAfter_refl b⟩
      | succ i => exact ih hrest i b hb

end Candidate

/-! ## A search that goes on -/

namespace Layer

open Beam Candidate

variable {ε : Type} {layer : Layer ε} {members busy : Set VectorId} {width : Nat} {beam : Beam}

/-- The results of a beam get no worse when it meets a candidate. -/
lemma meet_improves (h : Keeps layer members width busy beam) (candidate : Candidate) :
    Improves (beam.meet width candidate).results beam.results := by
  unfold Beam.meet
  split
  · exact (improves_insert h.results_ascending candidate).take_of_length_le h.length_le
  · exact .refl _

/-- Looking at the neighbors of a candidate makes the result better.

**Proof sketch.** A loop over the neighbors; each of them leaves the result or is put into its
place. -/
lemma expand_improves (hserves : layer.Serves members) (h : Keeps layer members width ∅ beam)
    {nearest : Candidate} {frontier : List Candidate} (hf : beam.frontier = nearest :: frontier)
    {next : Beam} (hexpand : layer.expand width { beam with frontier } nearest = .ok next) :
    Improves next.results beam.results := by
  have hnearest : nearest.id ∈ members :=
    h.visited_mem _ (h.frontier_visited nearest (by simp [hf]))
  obtain ⟨list, hlist, hmem⟩ := hserves.neighbors nearest.id hnearest
  obtain ⟨next', hfold, _, himproves⟩ := Except.foldlM_eq_ok
    (fun now => Keeps layer members width {nearest.id} now ∧ Improves now.results beam.results)
    (fun id hid now ⟨hnow, hbetter⟩ => by
      obtain ⟨after, hvisit, hafter, _⟩ := exists_visit hserves hnow (hmem id hid)
      refine ⟨after, hvisit, hafter, ?_⟩
      unfold visit at hvisit
      split at hvisit
      · obtain rfl := Except.ok.inj hvisit
        exact hbetter
      · obtain ⟨candidate, _, hmeet⟩ := Except.bind_eq_ok_iff.mp hvisit
        obtain rfl := Except.ok.inj hmeet
        exact (meet_improves hnow candidate).trans hbetter)
    (⟨h.pop hf, .refl _⟩ : Keeps layer members width {nearest.id} { beam with frontier } ∧ _)
  rw [expand, hlist, Except.ok_bind, hfold] at hexpand
  obtain rfl := Except.ok.inj hexpand
  exact himproves

/-- **A search that goes on makes its result better.**

**Proof sketch.** Induction along the search. -/
theorem explore_improves (hserves : layer.Serves members) (h : Keeps layer members width ∅ beam)
    {found : List Candidate} (hfound : layer.explore width beam = .ok found) :
    Improves found beam.results := by
  fun_induction layer.explore width beam with
  | case1 beam _ =>
    obtain rfl := Except.ok.inj hfound
    exact .refl _
  | case2 beam nearest frontier _ _ =>
    obtain rfl := Except.ok.inj hfound
    exact .refl _
  | case3 => cases hfound
  | case4 beam nearest frontier hf _ next hexpand ih =>
    obtain ⟨next', hnext', hkeeps, _⟩ := exists_expand hserves h hf
    obtain rfl := Except.ok.inj (hexpand.symm.trans hnext')
    exact (ih hkeeps hfound).trans (expand_improves hserves h hf hexpand)

end Layer

/-! ## Two beams -/

namespace Beam

open Candidate

variable {ε : Type} {layer : Layer ε} {members busy : Set VectorId} {narrow wide : Nat}
  {beam beam' : Beam}

/-- **A narrow and a wide beam go abreast**: they have met the same vectors, the narrow result is
the beginning of the wide one, and the wide frontier holds the narrow one. What it holds beyond that
comes after all of a full narrow result. -/
structure Abreast (narrow : Nat) (beam beam' : Beam) : Prop where
  visited : beam'.visited = beam.visited
  results : beam.results = beam'.results.take narrow
  frontier : ∀ c ∈ beam.frontier, c ∈ beam'.frontier
  spare : ∀ c ∈ beam'.frontier, c ∈ beam.frontier ∨
    (beam.results.length = narrow ∧ ∀ r ∈ beam.results, r.before c = true)

namespace Abreast

/-- Two beams that have met nothing are abreast. -/
lemma empty : Abreast narrow Beam.empty Beam.empty where
  visited := rfl
  results := List.take_nil.symm
  frontier _ h := h
  spare _ h := .inl h

/-- Both beams take a new candidate in.

**Proof sketch.** The beginning of a list with one more member is that of the beginning with it. A
candidate that drops out of the narrow result is after all that is left. -/
lemma add (h : Abreast narrow beam beam') (hle : narrow ≤ wide)
    (hkeeps : Keeps layer members narrow busy beam) {c : Candidate}
    (hnew : beam.visited.contains c.id = false) :
    Abreast narrow (beam.add narrow c) (beam'.add wide c) where
  visited := congrArg (·.insert c.id) h.visited
  results := by
    simp only [Beam.add]
    rw [h.results, take_insert_take, List.take_take, Nat.min_eq_left hle]
  frontier x hx := by
    rcases Candidate.mem_insert.mp hx with rfl | hx
    · exact Candidate.mem_insert.mpr (.inl rfl)
    · exact Candidate.mem_insert.mpr (.inr (h.frontier x hx))
  spare x hx := by
    rcases Candidate.mem_insert.mp hx with rfl | hx
    · exact .inl (Candidate.mem_insert.mpr (.inl rfl))
    rcases h.spare x hx with hin | ⟨hfull, hafter⟩
    · exact .inl (Candidate.mem_insert.mpr (.inr hin))
    · have hasc : Ascending (c.insert beam.results) :=
        ascending_insert hkeeps.results_ascending fun r hr =>
          id_ne_of_new hnew (hkeeps.results_visited r hr)
      exact .inr ⟨by simp [Beam.add, hfull], fun r hr =>
        hasc.before_of_mem_take_insert hfull hafter hr⟩

/-- The wide beam takes a candidate in that comes after all of a full narrow result. -/
lemma add_wide (h : Abreast narrow beam beam') (hle : narrow ≤ wide) {c : Candidate}
    (hfull : beam.results.length = narrow) (hafter : ∀ r ∈ beam.results, r.before c = true) :
    Abreast narrow { beam with visited := beam.visited.insert c.id } (beam'.add wide c) where
  visited := congrArg (·.insert c.id) h.visited
  results := by
    simp only [Beam.add]
    rw [List.take_take, Nat.min_eq_left hle, ← take_insert_take, ← h.results,
      insert_of_forall_before hafter, List.take_left' hfull]
  frontier x hx := Candidate.mem_insert.mpr (.inr (h.frontier x hx))
  spare x hx := by
    rcases Candidate.mem_insert.mp hx with rfl | hx
    · exact .inr ⟨hfull, hafter⟩
    · exact h.spare x hx

/-- A candidate that the wide beam does not take is not taken by the narrow one.

**Proof sketch.** The wide result is full and ends before the candidate. The narrow one is its
beginning. -/
lemma not_takes (h : Abreast narrow beam beam') (hpos : 0 < narrow) (hle : narrow ≤ wide)
    (hkeeps' : Keeps layer members wide busy beam') {c : Candidate}
    (hnew : beam'.visited.contains c.id = false) (htakes : beam'.takes wide c = false) :
    beam.takes narrow c = false := by
  obtain ⟨hfull, hafter⟩ := hkeeps'.full_of_not_takes hnew htakes
  have hlength : beam.results.length = narrow := by
    rw [h.results, List.length_take]
    omega
  rw [Beam.takes, hlength, Bool.or_eq_false_iff]
  refine ⟨decide_eq_false (Nat.lt_irrefl narrow), ?_⟩
  cases hw : beam.results.getLast? with
  | none =>
    rw [List.getLast?_eq_none_iff.mp hw, List.length_nil] at hlength
    omega
  | some worst =>
    have hworst := List.mem_of_getLast? hw
    rw [h.results] at hworst
    exact before_asymm (hafter worst (List.mem_of_mem_take hworst))

/-- Both beams meet a new candidate. -/
lemma meet (h : Abreast narrow beam beam') (hpos : 0 < narrow) (hle : narrow ≤ wide)
    (hkeeps : Keeps layer members narrow busy beam) (hkeeps' : Keeps layer members wide busy beam')
    {c : Candidate} (hnew : beam.visited.contains c.id = false) :
    Abreast narrow (beam.meet narrow c) (beam'.meet wide c) := by
  have hnew' : beam'.visited.contains c.id = false := by rw [h.visited, hnew]
  unfold Beam.meet
  cases htakes' : beam'.takes wide c with
  | false =>
    have htakes := h.not_takes hpos hle hkeeps' hnew' htakes'
    simp only [htakes, Bool.false_eq_true, if_false]
    exact { h with visited := congrArg (·.insert c.id) h.visited }
  | true =>
    cases htakes : beam.takes narrow c with
    | false =>
      obtain ⟨hfull, hafter⟩ := hkeeps.full_of_not_takes hnew htakes
      exact h.add_wide hle hfull hafter
    | true => exact h.add hle hkeeps hnew

/-- Both beams take some entries in.

**Proof sketch.** Induction on the entries; an entry is new to both beams or to neither. -/
lemma foldl_enter {entries : List Candidate} (hle : narrow ≤ wide) :
    ∀ {beam beam' : Beam}, Abreast narrow beam beam' → Keeps layer members narrow ∅ beam →
      (∀ e ∈ entries, e.id ∈ members ∧ layer.Measures e) →
      Abreast narrow (entries.foldl (enter narrow) beam) (entries.foldl (enter wide) beam') := by
  induction entries with
  | nil =>
    intro beam beam' h _ _
    exact h
  | cons e entries ih =>
    intro beam beam' h hkeeps hentries
    obtain ⟨hmem, hmeasured⟩ := hentries e (by simp)
    rw [List.foldl_cons, List.foldl_cons]
    refine ih ?_ ?_ fun e he => hentries e (by simp [he])
    · rw [enter, enter, h.visited]
      split
      · exact h
      · next hnew => exact h.add hle hkeeps (Bool.eq_false_iff.mpr hnew)
    · rw [enter]
      split
      · exact hkeeps
      · next hnew => exact hkeeps.add hmeasured hmem (Bool.eq_false_iff.mpr hnew)

/-- Both beams meet some vectors.

**Proof sketch.** Induction on the list. A vector that is new to both is taken by both, by the wide
beam only, or by neither. -/
lemma exists_foldlM_visit (hserves : layer.Serves members) (hpos : 0 < narrow)
    (hle : narrow ≤ wide) {list : List VectorId} :
    ∀ {beam beam' : Beam}, Abreast narrow beam beam' → Keeps layer members narrow busy beam →
      Keeps layer members wide busy beam' → (∀ id ∈ list, id ∈ members) →
      ∃ next next', list.foldlM (layer.visit narrow) beam = .ok next ∧
        list.foldlM (layer.visit wide) beam' = .ok next' ∧ Abreast narrow next next' := by
  induction list with
  | nil =>
    intro beam beam' h _ _ _
    exact ⟨beam, beam', rfl, rfl, h⟩
  | cons id list ih =>
    intro beam beam' h hkeeps hkeeps' hlist
    obtain ⟨between, hvisit, hbetween, _⟩ :=
      Layer.exists_visit hserves hkeeps (hlist id (by simp))
    obtain ⟨between', hvisit', hbetween', _⟩ :=
      Layer.exists_visit hserves hkeeps' (hlist id (by simp))
    have hnext : Abreast narrow between between' := by
      rw [Layer.visit] at hvisit
      rw [Layer.visit, h.visited] at hvisit'
      split at hvisit
      · next hold =>
        rw [if_pos hold] at hvisit'
        obtain rfl := Except.ok.inj hvisit
        obtain rfl := Except.ok.inj hvisit'
        exact h
      · next hnew =>
        rw [if_neg hnew] at hvisit'
        obtain ⟨c, hc, rfl, _⟩ := hserves.candidate (hlist id (by simp))
        rw [hc, Except.ok_bind] at hvisit hvisit'
        obtain rfl := Except.ok.inj hvisit
        obtain rfl := Except.ok.inj hvisit'
        exact h.meet hpos hle hkeeps hkeeps' (Bool.eq_false_iff.mpr hnew)
    obtain ⟨next, next', hfold, hfold', hlast⟩ :=
      ih hnext hbetween hbetween' fun id hid => hlist id (by simp [hid])
    refine ⟨next, next', ?_, ?_, hlast⟩
    · rw [List.foldlM_cons, hvisit, Except.ok_bind, hfold]
    · rw [List.foldlM_cons, hvisit', Except.ok_bind, hfold']

/-- **The nearest candidate of the narrow frontier is that of the wide one**, unless the narrow
search stops there.

**Proof sketch.** Whatever else is on the wide frontier comes after the last of the narrow result,
which does not come before the nearest candidate. -/
theorem frontier_eq (h : Abreast narrow beam beam') (hkeeps : Keeps layer members narrow busy beam)
    (hkeeps' : Keeps layer members wide busy beam') (hpos : 0 < narrow) {nearest : Candidate}
    {frontier : List Candidate} (hf : beam.frontier = nearest :: frontier)
    (hgoes : beam.excludes narrow nearest = false) :
    ∃ frontier', beam'.frontier = nearest :: frontier' ∧
      Abreast narrow { beam with frontier } { beam' with frontier := frontier' } := by
  have hin : nearest ∈ beam'.frontier := h.frontier nearest (by simp [hf])
  obtain ⟨first, frontier', hf'⟩ := List.exists_cons_of_ne_nil (List.ne_nil_of_mem hin)
  have hasc := List.pairwise_cons.mp (hf ▸ hkeeps.frontier_ascending)
  have hasc' := List.pairwise_cons.mp (hf' ▸ hkeeps'.frontier_ascending)
  have hfirst : first = nearest := by
    by_contra hne
    have hbefore : first.before nearest = true := by
      rw [hf'] at hin
      exact hasc'.1 nearest ((List.mem_cons.mp hin).resolve_left (Ne.symm hne))
    rcases h.spare first (by simp [hf']) with hold | ⟨hfull, hafter⟩
    · rw [hf] at hold
      have hnearest := hasc.1 first ((List.mem_cons.mp hold).resolve_left hne)
      rw [before_asymm hnearest] at hbefore
      exact Bool.false_ne_true hbefore
    · cases hw : beam.results.getLast? with
      | none =>
        rw [List.getLast?_eq_none_iff.mp hw, List.length_nil] at hfull
        omega
      | some worst =>
        have hworst := before_trans (hafter worst (List.mem_of_getLast? hw)) hbefore
        simp [Beam.excludes, hw, hfull, hworst] at hgoes
  subst hfirst
  have hne : ∀ {list : List Candidate}, (∀ c ∈ list, first.before c = true) → first ∉ list := by
    intro list hlist hmem
    have hself := hlist first hmem
    rw [before_irrefl] at hself
    exact Bool.false_ne_true hself
  refine ⟨frontier', hf', h.visited, h.results, fun c hc => ?_, fun c hc => ?_⟩
  · have hold := h.frontier c (by simp [hf, show c ∈ frontier from hc])
    rw [hf'] at hold
    exact (List.mem_cons.mp hold).resolve_left fun heq => hne hasc.1 (heq ▸ hc)
  · refine (h.spare c (by simp [hf', show c ∈ frontier' from hc])).imp_left fun hold => ?_
    rw [hf] at hold
    exact (List.mem_cons.mp hold).resolve_left fun heq => hne hasc'.1 (heq ▸ hc)

/-- The wide search goes on for as long as the narrow one does.

**Proof sketch.** The narrow result ends no later than the wide one, so that the candidate comes
before the end of the wide one as well. -/
lemma not_excludes (h : Abreast narrow beam beam')
    (hkeeps' : Keeps layer members wide busy beam') (hpos : 0 < narrow) (hle : narrow ≤ wide)
    {nearest : Candidate} (hgoes : beam.excludes narrow nearest = false) :
    beam'.excludes wide nearest = false := by
  by_contra hstops
  rw [Bool.not_eq_false, Beam.excludes, Bool.and_eq_true, decide_eq_true_eq] at hstops
  obtain ⟨hfull, hlast⟩ := hstops
  cases hw' : beam'.results.getLast? with
  | none => simp [hw'] at hlast
  | some worst' =>
    rw [hw'] at hlast
    have hlength : beam.results.length = narrow := by
      rw [h.results, List.length_take]
      omega
    cases hw : beam.results.getLast? with
    | none =>
      rw [List.getLast?_eq_none_iff.mp hw, List.length_nil] at hlength
      omega
    | some worst =>
      have hworst := List.mem_of_getLast? hw
      rw [h.results] at hworst
      have hbefore := before_of_notAfter_of_before (hkeeps'.results_ascending.notAfter_getLast hw'
        (List.mem_of_mem_take hworst)) hlast
      simp [Beam.excludes, hw, hlength, hbefore] at hgoes

/-- **The two searches look at the same candidate** and stay abreast, until the narrow one stops.

**Proof sketch.** The frontiers begin with the same candidate, and both beams then meet the same
neighbors. -/
theorem exists_expand (h : Abreast narrow beam beam') (hserves : layer.Serves members)
    (hpos : 0 < narrow) (hle : narrow ≤ wide) (hkeeps : Keeps layer members narrow ∅ beam)
    (hkeeps' : Keeps layer members wide ∅ beam') {nearest : Candidate} {frontier : List Candidate}
    (hf : beam.frontier = nearest :: frontier) (hgoes : beam.excludes narrow nearest = false) :
    ∃ frontier' next next', beam'.frontier = nearest :: frontier' ∧
      beam'.excludes wide nearest = false ∧
      layer.expand narrow { beam with frontier } nearest = .ok next ∧
      layer.expand wide { beam' with frontier := frontier' } nearest = .ok next' ∧
      Abreast narrow next next' := by
  obtain ⟨frontier', hf', hpopped⟩ := h.frontier_eq hkeeps hkeeps' hpos hf hgoes
  have hnearest : nearest.id ∈ members :=
    hkeeps.visited_mem _ (hkeeps.frontier_visited nearest (by simp [hf]))
  obtain ⟨list, hlist, hmem⟩ := hserves.neighbors nearest.id hnearest
  obtain ⟨next, next', hfold, hfold', hnext⟩ :=
    hpopped.exists_foldlM_visit hserves hpos hle (hkeeps.pop hf) (hkeeps'.pop hf') hmem
  refine ⟨frontier', next, next', hf', h.not_excludes hkeeps' hpos hle hgoes, ?_, ?_, hnext⟩
  · rw [Layer.expand, hlist, Except.ok_bind, hfold]
  · rw [Layer.expand, hlist, Except.ok_bind, hfold']

end Abreast

end Beam

/-! ## A wider beam -/

namespace Layer

open Beam Candidate

variable {ε : Type} {layer : Layer ε} {members : Set VectorId} {narrow wide : Nat}

/-- A search goes on from the beam that has looked at the neighbors of the nearest candidate. -/
lemma explore_eq_of_expand {width : Nat} {beam next : Beam} {nearest : Candidate}
    {frontier : List Candidate} (hf : beam.frontier = nearest :: frontier)
    (hgoes : beam.excludes width nearest = false)
    (hexpand : layer.expand width { beam with frontier } nearest = .ok next) :
    layer.explore width beam = layer.explore width next := by
  rw [explore]
  split
  · next hnil => rw [hnil] at hf; cases hf
  · next first rest hcons =>
    obtain ⟨rfl, rfl⟩ := List.cons.inj (hcons.symm.trans hf)
    rw [if_neg (by rw [hgoes]; exact Bool.false_ne_true)]
    split
    · next e he => rw [he] at hexpand; cases hexpand
    · next next' hnext => rw [Except.ok.inj (hnext.symm.trans hexpand)]

/-- **A wider search that goes on abreast of a narrow one finds nothing worse.**

**Proof sketch.** Induction along the narrow search. Where it stops, its result is the beginning of
the wide one, which only gets better. -/
theorem explore_improves_of_abreast (hserves : layer.Serves members) (hpos : 0 < narrow)
    (hle : narrow ≤ wide) {beam beam' : Beam} (h : Abreast narrow beam beam')
    (hkeeps : Keeps layer members narrow ∅ beam) (hkeeps' : Keeps layer members wide ∅ beam')
    {found found' : List Candidate} (hfound : layer.explore narrow beam = .ok found)
    (hfound' : layer.explore wide beam' = .ok found') : Improves found' found := by
  have hstop : ∀ {beam beam' : Beam}, Abreast narrow beam beam' →
      Keeps layer members wide ∅ beam' → layer.explore wide beam' = .ok found' →
        Improves found' beam.results := by
    intro beam beam' h hkeeps' hfound'
    rw [h.results]
    exact (explore_improves hserves hkeeps' hfound').trans (.take beam'.results narrow)
  fun_induction layer.explore narrow beam generalizing beam' with
  | case1 beam _ =>
    obtain rfl := Except.ok.inj hfound
    exact hstop h hkeeps' hfound'
  | case2 beam nearest frontier _ _ =>
    obtain rfl := Except.ok.inj hfound
    exact hstop h hkeeps' hfound'
  | case3 => cases hfound
  | case4 beam nearest frontier hf hexcludes next hexpand ih =>
    obtain ⟨frontier', next₁, next', hf', hgoes', hexpand₁, hexpand', hnext⟩ :=
      h.exists_expand hserves hpos hle hkeeps hkeeps' hf (Bool.eq_false_iff.mpr hexcludes)
    obtain rfl := Except.ok.inj (hexpand.symm.trans hexpand₁)
    obtain ⟨_, hok, hkept, _⟩ := exists_expand hserves hkeeps hf
    obtain rfl := Except.ok.inj (hexpand.symm.trans hok)
    obtain ⟨_, hok', hkept', _⟩ := exists_expand hserves hkeeps' hf'
    obtain rfl := Except.ok.inj (hexpand'.symm.trans hok')
    rw [explore_eq_of_expand hf' hgoes' hexpand'] at hfound'
    exact ih hnext hkept hkept' hfound hfound'

/-- **A wider beam never finds anything worse.** -/
theorem beamSearch_improves (hserves : layer.Serves members) {entries : List Candidate}
    (hentries : ∀ e ∈ entries, e.id ∈ members ∧ layer.Measures e) (hle : narrow ≤ wide)
    {found found' : List Candidate} (hfound : layer.beamSearch narrow entries = .ok found)
    (hfound' : layer.beamSearch wide entries = .ok found') : Improves found' found := by
  have hmax : max narrow 1 ≤ max wide 1 := by omega
  have hempty : ∀ width, Keeps layer members width ∅ Beam.empty := fun _ => Keeps.empty
  exact explore_improves_of_abreast hserves (by omega) hmax
    (Abreast.empty.foldl_enter hmax (hempty _) hentries)
    ((Keeps.foldl_enter (hempty _) hentries).1) ((Keeps.foldl_enter (hempty _) hentries).1)
    hfound hfound'

end Layer

end Proximity

import Proximity.Proofs.Index.Finding
import Proximity.Proofs.Index.Widening

set_option relaxedAutoImplicit false
set_option autoImplicit false

/-!
# Handing out results

A search that has been constructed is asked for portions of any sizes, and an approximate one can be
cut off in between. In whatever order it is asked, what it has handed out is the beginning of its
results, and what it has left is the rest of those that have not been cut off. A portion without
results is the last one if there was room for a result; one without room says nothing about what is
left, although the search counts as exhausted from then on.

## Main definitions

* `Proximity.ResultStream.Constructed` — the searches that an index constructs.
* `Proximity.ResultStream.Call`, `Proximity.ResultStream.askAll` — what a search is asked for, and
  what it hands out for several calls.
* `Proximity.ResultStream.Serves` — a state of a search in which it has handed out some results.
* `Proximity.ResultStream.Finished` — a search that hands out nothing more.

## Main results

* `Proximity.ResultStream.Serves.askAll` — nothing is lost and nothing comes twice, whatever the
  calls.
* `Proximity.ResultStream.Constructed.streams` — what a constructed search hands out.
* `Proximity.ResultStream.Constructed.finished_of_empty_portion` — when a portion is the last one.
* `Proximity.ResultStream.not_forall_finished` — a portion without results need not be the last one.
-/

namespace Proximity

/-! ## Constructed searches -/

namespace Search

variable {view : Snapshot} {field : FieldRecord} {name : String} {count : Nat} {query : Bytes}
  {minSimilarity : Single} {stream : ResultStream}

/-- An exact search has handed out nothing when it is constructed. -/
lemma exactIn_eq_ofResults (h : exactIn view field count query minSimilarity = .ok stream) :
    ∃ codec vectorLength results, stream = streamOf codec vectorLength results := by
  rw [exactIn] at h
  obtain ⟨header, _, h⟩ := Except.bind_eq_ok_iff.mp h
  obtain ⟨encoded, _, h⟩ := Except.bind_eq_ok_iff.mp h
  split_ifs at h with hsome
  · obtain ⟨nearest, _, h⟩ := Except.bind_eq_ok_iff.mp h
    exact ⟨_, _, _, (Except.ok.inj h).symm⟩
  · exact ⟨_, _, _, (Except.ok.inj h).symm⟩

/-- Nor has an approximate one, also if it scans all vectors instead. -/
lemma approximateIn_eq_ofResults
    (h : approximateIn view field count query minSimilarity = .ok stream) :
    ∃ codec vectorLength results, stream = streamOf codec vectorLength results := by
  rw [approximateIn_eq] at h
  obtain ⟨found, _, h⟩ := Except.bind_eq_ok_iff.mp h
  obtain ⟨header, _, h⟩ := Except.bind_eq_ok_iff.mp h
  exact ⟨_, _, _, (Except.ok.inj h).symm⟩

end Search

namespace ResultStream

/-- **A search that an index has constructed**, on records of any form. -/
inductive Constructed (stream : ResultStream) : Prop
  /-- The exact search. -/
  | exact {view : Snapshot} {name : String} {count : Nat} {query : Bytes} {minSimilarity : Single}
      (h : Search.exact view name count query minSimilarity = .ok stream)
  /-- The approximate search. -/
  | approximate {view : Snapshot} {name : String} {breadth : Nat} {query : Bytes}
      {minSimilarity : Single}
      (h : Search.approximate view name breadth query minSimilarity = .ok stream)

/-- A search that an index has constructed has handed out nothing. -/
lemma Constructed.eq_ofResults {stream : ResultStream} (h : stream.Constructed) :
    stream = .ofResults stream.score stream.results := by
  obtain ⟨codec, vectorLength, results, rfl⟩ :
      ∃ codec vectorLength results, stream = Search.streamOf codec vectorLength results := by
    rcases h with h | h
    · obtain ⟨field, _, h⟩ := Except.bind_eq_ok_iff.mp h
      exact Search.exactIn_eq_ofResults h
    · obtain ⟨field, _, h⟩ := Except.bind_eq_ok_iff.mp h
      exact Search.approximateIn_eq_ofResults h
  rfl

/-- The three of the four numbers on a line that are nearest to zero. -/
def nearestThree : List Candidate :=
  [⟨⟨0⟩, ⟨1⟩⟩, ⟨⟨0x3f800000⟩, ⟨2⟩⟩, ⟨⟨0x3f800000⟩, ⟨3⟩⟩]

/-- An approximate search with three results.

**Proof sketch.** A search with a width of seven in a field of four vectors, of which one is not
similar enough. -/
lemma exists_constructed_spread : ∃ score, (ofResults score nearestThree).Constructed := by
  obtain ⟨index, field, _, hreachable, hcommitted, hrests, _, hoptions⟩ := Index.exists_spread
  have hne := Index.Reachable.spread_ne_nil hcommitted
  have haccepts := Index.Reachable.accepts_spread hoptions (.of_eq hcommitted)
  obtain ⟨graph, found, -, -, -, -, -, -, hwide, hanswer⟩ :=
    hreachable.search_complete .reader hrests.find hne haccepts (show 0 < 7 by decide)
  obtain ⟨stream, hstream, hresults⟩ := hanswer (fun _ => by decide) ⟨0x3ecccccd⟩
  have hfound := (hwide (by rw [hcommitted]; decide)).1
  rw [hcommitted, hoptions, Index.Reachable.sort_spread] at hfound
  have hthree : stream.results = nearestThree := by
    rw [hresults, hfound, hoptions]
    decide +kernel
  have hconstructed : stream.Constructed := .approximate hstream
  refine ⟨stream.score, ?_⟩
  rwa [← hthree, ← hconstructed.eq_ofResults]

/-! ## Calls -/

/-- What a constructed search is asked for. -/
inductive Call
  /-- A portion, with room for so many ids and for so many distances. -/
  | fill (idRoom distanceRoom : Nat)
  /-- To keep at most so many results. -/
  | limit (count : Nat)

/-- What a search hands out for a call, and the search after it. -/
def ask (stream : ResultStream) : Call → List Candidate × ResultStream
  | .fill idRoom distanceRoom => stream.fill idRoom distanceRoom
  | .limit count => ([], stream.limit count)

/-- What a search hands out for some calls one after another, all together, and the search after
them. -/
def askAll (stream : ResultStream) : List Call → List Candidate × ResultStream
  | [] => ([], stream)
  | call :: calls =>
    let answer := stream.ask call
    let rest := answer.2.askAll calls
    (answer.1 ++ rest.1, rest.2)

variable {stream next : ResultStream} {found given : List Candidate}

/-- What remains is what is still to be handed out. -/
lemma remaining_eq : stream.remaining = stream.pending.length := by
  rw [remaining, pending, List.length_drop]

/-- A portion takes what there is room for on both sides. -/
lemma length_fill (idRoom distanceRoom : Nat) :
    (stream.fill idRoom distanceRoom).1.length =
      min (min idRoom distanceRoom) stream.remaining := by
  rw [fill, List.length_take, remaining_eq]

/-- A portion is empty only without room for a result or at the end. -/
lemma fill_eq_nil_iff {idRoom distanceRoom : Nat} :
    (stream.fill idRoom distanceRoom).1 = [] ↔
      idRoom = 0 ∨ distanceRoom = 0 ∨ stream.remaining = 0 := by
  rw [← List.length_eq_zero_iff, length_fill]
  omega

/-- A limit does not change how much has been handed out. -/
lemma handedOut_limit (count : Nat) : (stream.limit count).handedOut = stream.handedOut := by
  rw [limit]
  split_ifs <;> rfl

/-- An empty portion leaves a search as it was, except that it counts as exhausted. -/
lemma fill_eq_of_empty {idRoom distanceRoom : Nat}
    (h : (stream.fill idRoom distanceRoom).1 = []) :
    (stream.fill idRoom distanceRoom).2 = { stream with exhausted := true } := by
  have hportion : stream.pending.take (min idRoom distanceRoom) = [] := h
  simp only [fill, hportion, List.length_nil, Nat.add_zero, List.isEmpty_nil, Bool.or_true]

/-! ## What has been handed out and what is left -/

/-- **A state of a search** that has found `found` and handed out `given`. -/
structure Serves (found given : List Candidate) (stream : ResultStream) : Prop where
  handedOut : stream.handedOut = given.length
  /-- What has been handed out and what is left are the results. -/
  results : given ++ stream.pending = stream.results
  /-- Results have only been cut off at the end. -/
  cut : stream.results <+: found

namespace Serves

/-- A search that has just been constructed. -/
lemma ofResults (score : Single → Single) (results : List Candidate) :
    Serves results [] (.ofResults score results) :=
  ⟨rfl, rfl, List.prefix_rfl⟩

/-- The cursor never passes the end of the results. -/
lemma add_remaining (h : Serves found given stream) :
    given.length + stream.remaining = stream.results.length := by
  rw [remaining_eq, ← List.length_append, h.results]

/-- What has been handed out comes first of what was found. -/
lemma given_prefix (h : Serves found given stream) : given <+: found :=
  (List.prefix_append given stream.pending).trans (h.results ▸ h.cut)

/-- **A portion** is the next part of what is left. -/
theorem fill (h : Serves found given stream) (idRoom distanceRoom : Nat) :
    Serves found (given ++ (stream.fill idRoom distanceRoom).1)
      (stream.fill idRoom distanceRoom).2 where
  handedOut := by
    rw [List.length_append, ← h.handedOut]
    rfl
  results := by
    rw [pending_fill_rooms, List.append_assoc, ResultStream.fill, List.take_append_drop, h.results]
  cut := h.cut

/-- The results that are left of those that a search may keep. -/
lemma results_limit (h : Serves found given stream) (count : Nat) :
    (stream.limit count).results = stream.results.take (max count given.length) := by
  have hle := h.add_remaining
  rw [limit, h.handedOut]
  split_ifs with hcut
  · rfl
  · exact (List.take_of_length_le (by omega)).symm

/-- What is left after results have been cut off. -/
lemma pending_limit (h : Serves found given stream) (count : Nat) :
    (stream.limit count).pending = stream.pending.take (count - given.length) := by
  rw [pending, handedOut_limit, h.results_limit, pending, h.handedOut, List.drop_take]
  congr 1
  omega

/-- **Results that have been handed out stay**, however few may be kept.

**Proof sketch.** What has been handed out is kept, and of the rest as many as there may be beyond
it. -/
theorem limit (h : Serves found given stream) (count : Nat) :
    Serves found given (stream.limit count) where
  handedOut := (handedOut_limit count).trans h.handedOut
  results := by
    rw [h.pending_limit, h.results_limit, ← h.results, List.take_append,
      List.take_of_length_le (Nat.le_max_right count given.length)]
    congr 2
    omega
  cut := by
    rw [h.results_limit]
    exact (List.take_prefix _ _).trans h.cut

/-- The number of results after some have been cut off. -/
lemma length_limit (h : Serves found given stream) (count : Nat) :
    (stream.limit count).results.length = max given.length (min count stream.results.length) := by
  have hle := h.add_remaining
  rw [h.results_limit, List.length_take]
  omega

/-- A call hands out what comes next. -/
lemma ask (h : Serves found given stream) (call : Call) :
    Serves found (given ++ (stream.ask call).1) (stream.ask call).2 := by
  cases call with
  | fill idRoom distanceRoom => exact h.fill idRoom distanceRoom
  | limit count =>
    rw [ResultStream.ask, List.append_nil]
    exact h.limit count

/-- **Nothing is lost and nothing comes twice**, by induction on the calls. -/
theorem askAll (h : Serves found given stream) (calls : List Call) :
    Serves found (given ++ (stream.askAll calls).1) (stream.askAll calls).2 := by
  induction calls generalizing given stream with
  | nil => simpa only [ResultStream.askAll, List.append_nil] using h
  | cons call calls ih =>
    rw [ResultStream.askAll, ← List.append_assoc]
    exact ih (h.ask call)

end Serves

/-- A search that an index has constructed has handed out nothing of its results. -/
lemma Constructed.serves (h : stream.Constructed) : Serves stream.results [] stream := by
  have hserves := Serves.ofResults stream.score stream.results
  rwa [← h.eq_ofResults] at hserves

/-- Collecting leaves nothing. -/
lemma remaining_drain {room : Nat} (hroom : 0 < room) (stream : ResultStream) :
    (stream.drain room).2.remaining = 0 := by
  fun_induction drain room stream with
  | case1 stream portion hempty =>
    have hremaining : stream.remaining = 0 := by
      rcases fill_eq_nil_iff.mp hempty with hzero | hzero | hnone
      · omega
      · omega
      · exact hnone
    rw [remaining_eq, List.length_eq_zero_iff] at hremaining ⊢
    rw [pending_fill, hremaining, List.drop_nil]
  | case2 stream portion _ rest ih => exact ih

/-- **What a constructed search hands out**, in whatever order it is asked for portions and cut off.
All portions together are the beginning of its results, and so is what it keeps. It has as many
results left as it keeps beyond those that it has handed out, a portion takes as many of them as
there is room for on both sides, cutting off spares what has been handed out, and collecting hands
out all that is left.

**Proof sketch.** By induction on the calls the search serves its results: what it has handed out
and what is pending are the beginning of them. -/
theorem Constructed.streams (h : stream.Constructed) (calls : List Call) :
    ∃ given after, stream.askAll calls = (given, after) ∧
      given <+: stream.results ∧ after.results <+: stream.results ∧
      given.length ≤ after.results.length ∧
      after.remaining = after.results.length - given.length ∧
      (∀ idRoom distanceRoom,
        (after.fill idRoom distanceRoom).1.length =
          min (min idRoom distanceRoom) after.remaining ∧
        given ++ (after.fill idRoom distanceRoom).1 <+: after.results) ∧
      (∀ count, (after.limit count).results <+: after.results ∧
        (after.limit count).results.length =
          max given.length (min count after.results.length)) ∧
      given ++ after.collect.1 = after.results ∧ after.collect.2.remaining = 0 := by
  obtain ⟨given, after, hcalls⟩ : ∃ given after, stream.askAll calls = (given, after) :=
    ⟨_, _, rfl⟩
  have hafter : Serves stream.results given after := by
    have hserves := h.serves.askAll calls
    rwa [hcalls] at hserves
  have hsum := hafter.add_remaining
  refine ⟨given, after, hcalls, hafter.given_prefix, hafter.cut, by omega, by omega, ?_, ?_, ?_, ?_⟩
  · exact fun idRoom distanceRoom =>
      ⟨length_fill idRoom distanceRoom, _, (hafter.fill idRoom distanceRoom).results⟩
  · intro count
    refine ⟨?_, hafter.length_limit count⟩
    rw [hafter.results_limit]
    exact List.take_prefix _ _
  · rw [collect, drain_eq_pending (by decide), hafter.results]
  · exact remaining_drain (by decide) after

/-- A portion for which there is no room on one side, one with room for two of three results, and
then only one result may be kept, which spares the two. -/
theorem Constructed.exists_streams_cut : ∃ stream after : ResultStream,
    stream.Constructed ∧ stream.results = nearestThree ∧
      stream.askAll [.fill 0 5, .fill 3 2, .limit 1] = (nearestThree.take 2, after) ∧
      after.results.length = 2 ∧ after.remaining = 0 ∧
      nearestThree.take 2 ++ after.collect.1 = after.results := by
  obtain ⟨score, h⟩ := exists_constructed_spread
  obtain ⟨given, after, hcalls, -, -, -, hremaining, -, -, hcollect, -⟩ :=
    h.streams [.fill 0 5, .fill 3 2, .limit 1]
  obtain ⟨rfl, rfl⟩ := Prod.mk.inj hcalls
  exact ⟨_, _, h, rfl, rfl, rfl, hremaining, hcollect⟩

/-! ## The last portion -/

/-- **A search that hands out nothing more**, whatever it is asked for. -/
def Finished (stream : ResultStream) : Prop :=
  ∀ calls, (stream.askAll calls).1 = [] ∧ (stream.askAll calls).2.remaining = 0

/-- Where nothing remains, nothing is handed out any more. -/
lemma ask_of_remaining_eq_zero (h : stream.remaining = 0) (call : Call) :
    (stream.ask call).1 = [] ∧ (stream.ask call).2.remaining = 0 := by
  cases call with
  | fill idRoom distanceRoom =>
    refine ⟨fill_eq_nil_iff.mpr (.inr (.inr h)), ?_⟩
    rw [remaining_eq, List.length_eq_zero_iff] at h ⊢
    rw [ask, pending_fill_rooms, h, List.drop_nil]
  | limit count =>
    refine ⟨rfl, ?_⟩
    rw [remaining] at h
    rw [ask, limit]
    split_ifs
    · simp only [remaining, List.length_take]
      omega
    · exact h

/-- **A search is finished when nothing is left.**

**Proof sketch.** Induction on the calls that come later; a search with nothing left hands out
nothing, and nothing is left after it. -/
theorem finished_iff : stream.Finished ↔ stream.remaining = 0 := by
  constructor
  · exact fun h => (h []).2
  · intro h calls
    induction calls generalizing stream with
    | nil => exact ⟨rfl, h⟩
    | cons call calls ih =>
      obtain ⟨hnone, hremaining⟩ := ask_of_remaining_eq_zero h call
      obtain ⟨hrest, hlast⟩ := ih hremaining
      exact ⟨by rw [askAll, hnone, hrest, List.append_nil], hlast⟩

/-- **A search counts as exhausted** once a portion has been empty, by induction on the calls.

**Proof sketch.** Induction on the calls: the mark is set by an empty portion, and it is never taken
away. -/
theorem exhausted_askAll_iff (calls : List Call) :
    (stream.askAll calls).2.exhausted = true ↔ stream.exhausted = true ∨
      ∃ before idRoom distanceRoom, before ++ [.fill idRoom distanceRoom] <+: calls ∧
        ((stream.askAll before).2.fill idRoom distanceRoom).1 = [] := by
  induction calls generalizing stream with
  | nil => simp [askAll]
  | cons call calls ih =>
    have hask : (stream.ask call).2.exhausted = true ↔ stream.exhausted = true ∨
        ∃ idRoom distanceRoom, call = .fill idRoom distanceRoom ∧
          (stream.fill idRoom distanceRoom).1 = [] := by
      cases call with
      | fill idRoom distanceRoom => simp [ask, fill]
      | limit count =>
        rw [ask, limit]
        split_ifs <;> simp
    rw [askAll, ih, hask, or_assoc]
    refine or_congr_right ⟨?_, ?_⟩
    · rintro (⟨idRoom, distanceRoom, rfl, hempty⟩ | ⟨before, idRoom, distanceRoom, hbefore, hempty⟩)
      · exact ⟨[], idRoom, distanceRoom, ⟨calls, rfl⟩, hempty⟩
      · exact ⟨call :: before, idRoom, distanceRoom, List.cons_prefix_cons.mpr ⟨rfl, hbefore⟩,
          hempty⟩
    · rintro ⟨before, idRoom, distanceRoom, hbefore, hempty⟩
      cases before with
      | nil => exact .inl ⟨idRoom, distanceRoom, (List.cons_prefix_cons.mp hbefore).1.symm, hempty⟩
      | cons first before =>
        obtain ⟨rfl, hrest⟩ := List.cons_prefix_cons.mp hbefore
        exact .inr ⟨before, idRoom, distanceRoom, hrest, hempty⟩

/-- **When an empty portion is the last one.** A constructed search counts as exhausted exactly if
one of its portions has been empty, and it does so for good. An empty portion for which there was
room on both sides is the last one: nothing is left, and whatever is asked later, nothing more is
handed out. An empty portion for want of room leaves what was left before it, so that it is the last
one only if nothing was.

**Proof sketch.** A new search is not marked, so that only an empty portion marks it. A portion
takes as many results as there is room for, hence it is empty if there is no room or nothing is
left. -/
theorem Constructed.finished_of_empty_portion (h : stream.Constructed) (calls : List Call) :
    ((stream.askAll calls).2.exhausted = true ↔
      ∃ before idRoom distanceRoom, before ++ [.fill idRoom distanceRoom] <+: calls ∧
        ((stream.askAll before).2.fill idRoom distanceRoom).1 = []) ∧
    ∀ idRoom distanceRoom next,
      (stream.askAll calls).2.fill idRoom distanceRoom = ([], next) →
        (∀ later, (next.askAll later).2.exhausted = true) ∧
        (0 < idRoom → 0 < distanceRoom → next.Finished) ∧
        next.pending = (stream.askAll calls).2.pending ∧
        (next.Finished ↔ (stream.askAll calls).2.remaining = 0) := by
  refine ⟨?_, fun idRoom distanceRoom next hfill => ?_⟩
  · rw [exhausted_askAll_iff, h.eq_ofResults]
    simp [ofResults]
  · generalize (stream.askAll calls).2 = last at hfill
    have hempty : (last.fill idRoom distanceRoom).1 = [] := congrArg Prod.fst hfill
    obtain rfl : { last with exhausted := true } = next :=
      (fill_eq_of_empty hempty).symm.trans (congrArg Prod.snd hfill)
    have hfinished : { last with exhausted := true }.Finished ↔ last.remaining = 0 := finished_iff
    refine ⟨fun later => (exhausted_askAll_iff later).mpr (.inl rfl), ?_, rfl, hfinished⟩
    intro hid hdistance
    rcases fill_eq_nil_iff.mp hempty with hzero | hzero | hnone
    · omega
    · omega
    · exact hfinished.mpr hnone

/-- A portion for which there is no room, and one after everything has been handed out. -/
theorem Constructed.exists_empty_portions : ∃ stream : ResultStream, stream.Constructed ∧
    (∃ next, stream.fill 0 9 = ([], next) ∧ next.exhausted = true ∧ ¬next.Finished) ∧
    ∃ next, (stream.askAll [.fill 2 1, .fill 2 2]).2.fill 1 1 = ([], next) ∧ next.Finished := by
  obtain ⟨score, h⟩ := exists_constructed_spread
  obtain ⟨-, hempty⟩ := h.finished_of_empty_portion []
  obtain ⟨hexhausted, -, -, hfinished⟩ := hempty 0 9 _ rfl
  obtain ⟨-, hempty⟩ := h.finished_of_empty_portion [.fill 2 1, .fill 2 2]
  obtain ⟨-, hdone, -⟩ := hempty 1 1 _ rfl
  exact ⟨_, h, ⟨_, rfl, hexhausted [], mt hfinished.mp (Nat.succ_ne_zero 2)⟩, _, rfl,
    hdone (by decide) (by decide)⟩

/-- **An empty portion need not be the last one**: without room for a result it is empty although
a result is left. -/
theorem not_forall_finished : ¬∀ stream : ResultStream, stream.Constructed →
    ∀ (rooms : List (Nat × Nat)) (idRoom distanceRoom : Nat) (next : ResultStream),
      (stream.askAll (rooms.map fun room => .fill room.1 room.2)).2.fill idRoom distanceRoom =
          ([], next) →
        next.exhausted = true ∧ next.remaining = 0 ∧
          ∀ later : List (Nat × Nat),
            (next.askAll (later.map fun room => .fill room.1 room.2)).1 = [] := by
  intro hall
  obtain ⟨score, h⟩ := exists_constructed_spread
  obtain ⟨-, hnone, -⟩ := hall _ h [] 0 0 _ rfl
  exact Nat.succ_ne_zero 2 hnone

end ResultStream

end Proximity

import Proximity.Graph.Candidate

set_option autoImplicit false
set_option relaxedAutoImplicit false

/-!
# Result streams

A search has found all its results when it is constructed, and hands them out in portions, nearest
first. What its distances stand for is its own affair.

## Main definitions

* `Proximity.ResultStream` — the results, and how many of them have been handed out.
* `Proximity.ResultStream.fill` — the next portion.
* `Proximity.ResultStream.limit` — a bound on the number of results.
* `Proximity.ResultStream.drain` — everything that has not been handed out.
-/

namespace Proximity

/-- The results of a search, handed out in portions. -/
structure ResultStream where
  /-- The results, nearest first. -/
  results : List Candidate
  /-- The number of results that have been handed out. -/
  handedOut : Nat
  /-- Whether a portion has been empty. -/
  exhausted : Bool
  /-- The similarity that a distance stands for. -/
  score : Single → Single

namespace ResultStream

/-- The stream of some results. -/
def ofResults (score : Single → Single) (results : List Candidate) : ResultStream where
  results := results
  handedOut := 0
  exhausted := false
  score := score

/-- Whether there were no results at all. -/
def isEmpty (stream : ResultStream) : Bool :=
  stream.results.isEmpty

/-- The number of results that have not been handed out. -/
def remaining (stream : ResultStream) : Nat :=
  stream.results.length - stream.handedOut

/-- The results that have not been handed out. -/
def pending (stream : ResultStream) : List Candidate :=
  stream.results.drop stream.handedOut

/-- The next results, as many as there is room for on both sides. -/
def fill (stream : ResultStream) (idRoom distanceRoom : Nat) : List Candidate × ResultStream :=
  let portion := stream.pending.take (min idRoom distanceRoom)
  (portion, { stream with
    handedOut := stream.handedOut + portion.length
    exhausted := stream.exhausted || portion.isEmpty })

/-- The stream with at most `count` results; what has been handed out stays. -/
def limit (stream : ResultStream) (count : Nat) : ResultStream :=
  if count < stream.results.length then
    { stream with results := stream.results.take (max count stream.handedOut) }
  else stream

/-- A portion that is not empty leaves fewer results. -/
theorem remaining_fill_lt {stream : ResultStream} {idRoom distanceRoom : Nat}
    (h : (stream.fill idRoom distanceRoom).1 ≠ []) :
    (stream.fill idRoom distanceRoom).2.remaining < stream.remaining := by
  have hpos := List.length_pos_iff.mpr h
  simp only [fill, pending, List.length_take, List.length_drop, remaining] at hpos ⊢
  omega

/-- Everything that has not been handed out, taken in portions of at most `room` results. -/
def drain (room : Nat) (stream : ResultStream) : List Candidate × ResultStream :=
  let portion := stream.fill room room
  if _ : portion.1 = [] then portion
  else
    let rest := drain room portion.2
    (portion.1 ++ rest.1, rest.2)
termination_by stream.remaining
decreasing_by exact remaining_fill_lt (by assumption)

/-- Draining hands out no more than there is.

**Proof sketch.** Induction along the portions; each of them is no longer than what is left. -/
theorem length_drain_le (room : Nat) (stream : ResultStream) :
    (stream.drain room).1.length ≤ stream.remaining := by
  have hlen (s : ResultStream) : (s.fill room room).1.length ≤ s.remaining := by
    simp only [fill, pending, List.length_take, List.length_drop, remaining]
    omega
  have hrest (s : ResultStream) :
      (s.fill room room).2.remaining = s.remaining - (s.fill room room).1.length := by
    simp only [fill, remaining]
    omega
  fun_induction drain room stream with
  | case1 stream _ _ => exact hlen stream
  | case2 stream portion _ rest ih =>
    have h₁ : portion.1.length ≤ stream.remaining := hlen stream
    have h₂ : portion.2.remaining = stream.remaining - portion.1.length := hrest stream
    have h₃ : rest.1.length ≤ portion.2.remaining := ih
    simp only [List.length_append]
    omega

/-- The portion in which a caller collects all results. -/
def collectRoom : Nat := 64

/-- All results that have not been handed out. -/
def collect (stream : ResultStream) : List Candidate × ResultStream :=
  stream.drain collectRoom

end ResultStream

end Proximity

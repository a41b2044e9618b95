set_option autoImplicit false
set_option relaxedAutoImplicit false

/-!
# Growable buffers

A buffer keeps its capacity above its length: before something is put in, the capacity grows until
at least a sixteenth of it would stay free. How far it grows each time is the choice of a policy.

## Main definitions

* `Proximity.Growth` — the policies.
* `Proximity.Growth.next` — the capacity after a capacity.
* `Proximity.Growth.tooFull` — whether too little would stay free.
* `Proximity.Buffer` — elements with a capacity.
* `Proximity.Buffer.reserve`, `Proximity.Buffer.push`, `Proximity.Buffer.append` — making room, and
  putting elements in one by one or all at once.

## Main results

* `Proximity.Growth.lt_next` — a capacity below the greatest one grows, which makes the growth end.
-/

namespace Proximity

/-- The greatest capacity there is. -/
def maxCapacity : Nat := UInt64.size - 1

/-- How the capacity of a buffer grows, with the first capacity asked for. -/
inductive Growth
  /-- To twice its size each time. -/
  | doubling (initial : Nat)
  /-- To twice its size below 4096, to one and a half times below 65536, and by a quarter above. -/
  | tiered (initial : Nat)
deriving DecidableEq

namespace Growth

/-- The first capacity; there is room for one element at least. -/
def first : Growth → Nat
  | doubling initial => max initial 1
  | tiered initial => max initial 1

/-- The capacity to grow to before it is held below the greatest one. -/
def step (growth : Growth) (capacity : Nat) : Nat :=
  match growth with
  | doubling _ => 2 * capacity
  | tiered _ =>
    if capacity < 4096 then 2 * capacity
    else if capacity < 65536 then capacity + capacity / 2
    else capacity + capacity / 4

/-- The capacity after a capacity: always a greater one. -/
def next (growth : Growth) (capacity : Nat) : Nat :=
  max (min (growth.step capacity) maxCapacity) (capacity + 1)

/-- Whether `count` elements leave less than a sixteenth of a capacity free. -/
def tooFull (count capacity : Nat) : Bool :=
  capacity - count < max (capacity / 16) 1

/-- A buffer always grows. -/
theorem lt_next (growth : Growth) (capacity : Nat) : capacity < growth.next capacity := by
  unfold next
  omega

/-- Twice the capacity and one more holds as much again and leaves enough free. -/
theorem not_tooFull_of_le {count capacity : Nat} (h : 2 * count + 2 ≤ capacity) :
    tooFull count capacity = false := by
  simp only [tooFull, decide_eq_false_iff_not]
  omega

/-- The capacity that a capacity has to grow to before `count` elements leave enough free. -/
def reach (growth : Growth) (count capacity : Nat) : Nat :=
  if capacity < count ∨ tooFull count capacity = true then
    reach growth count (growth.next capacity)
  else capacity
termination_by 2 * count + 2 - capacity
decreasing_by
  have := growth.lt_next capacity
  rename_i h
  rcases h with h | h
  · omega
  · by_cases hc : 2 * count + 2 ≤ capacity
    · simp [not_tooFull_of_le hc] at h
    · omega

end Growth

/-- Elements with a capacity. -/
structure Buffer (α : Type) where
  /-- The elements. -/
  items : Array α
  /-- The number of elements that there is room for. -/
  capacity : Nat
  /-- How the capacity grows. -/
  growth : Growth

namespace Buffer

variable {α : Type}

/-- A buffer without elements and without room. -/
def empty (growth : Growth) : Buffer α where
  items := #[]
  capacity := 0
  growth := growth

/-- The number of elements. -/
def size (buffer : Buffer α) : Nat :=
  buffer.items.size

/-- The buffer with room for `count` more elements. -/
def reserve (buffer : Buffer α) (count : Nat) : Buffer α :=
  let capacity := if buffer.capacity = 0 then buffer.growth.first else buffer.capacity
  { buffer with capacity := buffer.growth.reach (buffer.size + count) capacity }

/-- The buffer with one more element. -/
def push (buffer : Buffer α) (item : α) : Buffer α :=
  let buffer := buffer.reserve 1
  { buffer with items := buffer.items.push item }

/-- The buffer with more elements, each making room for itself. -/
def extend (buffer : Buffer α) (items : List α) : Buffer α :=
  items.foldl push buffer

/-- The buffer with more elements, for all of which room is made at once. -/
def append (buffer : Buffer α) (items : List α) : Buffer α :=
  let buffer := buffer.reserve items.length
  { buffer with items := buffer.items ++ items.toArray }

/-- The buffer without its elements. -/
def clear (buffer : Buffer α) : Buffer α :=
  { buffer with items := #[] }

/-- The buffer with at most `count` elements, the first ones. -/
def truncate (buffer : Buffer α) (count : Nat) : Buffer α :=
  { buffer with items := buffer.items.take count }

/-- The buffer with its elements changed in place. -/
def update (buffer : Buffer α) (change : Array α → Array α) : Buffer α :=
  { buffer with items := change buffer.items }

end Buffer

end Proximity

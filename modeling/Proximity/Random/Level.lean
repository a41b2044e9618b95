import Proximity.Random.ChaCha

set_option autoImplicit false
set_option relaxedAutoImplicit false

/-!
# Levels

The highest layer of a new node is drawn at random, so that each layer holds a fixed fraction of the
nodes of the one below. A session draws from a seed that depends on the configured seed and on the
number of nodes, so a replay of the same history draws the same levels.

## Main definitions

* `Proximity.sessionSeed` — the seed of a session.
* `Proximity.levelOf` — the level that a number between zero and one stands for.
-/

namespace Proximity

/-- A mixing of 64 bits in which every bit of the result depends on every bit of the argument. -/
def mix64 (x : UInt64) : UInt64 :=
  let x := x + 0x9e3779b97f4a7c15
  let x := (x ^^^ (x >>> 30)) * 0xbf58476d1ce4e5b9
  let x := (x ^^^ (x >>> 27)) * 0x94d049bb133111eb
  x ^^^ (x >>> 31)

/-- The seed of a session on a graph with `nodeCount` nodes. -/
def sessionSeed (base nodeCount : UInt64) : UInt64 :=
  mix64 (base ^^^ mix64 nodeCount)

/-- The highest layer that a node can be on. -/
def maxLevel : Nat := 16

/-- The factor by which levels grow for a graph with this number of edges. -/
def levelFactor (edges : Nat) : Float :=
  1.0 / edges.toUInt64.toFloat.log

/-- The level that a number from zero up to one stands for: exponentially fewer numbers stand for
each higher level. -/
def levelOf (factor uniform : Float) : Nat :=
  min (-(1.0 - uniform).log * factor).toUInt64.toNat maxLevel

end Proximity

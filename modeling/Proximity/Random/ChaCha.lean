set_option autoImplicit false
set_option relaxedAutoImplicit false

/-!
# The ChaCha stream

Random numbers come from the ChaCha stream cipher with twelve rounds: each key gives a stream of
32-bit words, sixteen to a block, and the blocks are numbered from zero.

## Design

The sixteen words of the state are four rows of four. A quarter round works on all four columns at
once; turning the rows against each other brings the diagonals into the columns.

## Main definitions

* `Proximity.ChaCha.block` — one block of the stream of a key.
* `Proximity.ChaCha.Key.ofSeed` — the key that a 64-bit seed is expanded to.
* `Proximity.Generator` — a place in the stream of a key.
* `Proximity.Generator.uniform` — a number between zero and one.
-/

namespace Proximity

namespace ChaCha

/-- Four words side by side. -/
structure Row where
  /-- The first word. -/
  w₀ : UInt32
  /-- The second word. -/
  w₁ : UInt32
  /-- The third word. -/
  w₂ : UInt32
  /-- The fourth word. -/
  w₃ : UInt32

namespace Row

/-- Two rows combined word by word. -/
def zip (f : UInt32 → UInt32 → UInt32) (x y : Row) : Row :=
  ⟨f x.w₀ y.w₀, f x.w₁ y.w₁, f x.w₂ y.w₂, f x.w₃ y.w₃⟩

/-- A row with a function applied to each word. -/
def map (f : UInt32 → UInt32) (x : Row) : Row :=
  ⟨f x.w₀, f x.w₁, f x.w₂, f x.w₃⟩

/-- The row turned left by one place. -/
def turn (x : Row) : Row :=
  ⟨x.w₁, x.w₂, x.w₃, x.w₀⟩

/-- The words of a row. -/
def words (x : Row) : List UInt32 :=
  [x.w₀, x.w₁, x.w₂, x.w₃]

end Row

/-- A word turned left by `n` bits, for `n` from 1 to 31. -/
def rotateLeft (n : UInt32) (x : UInt32) : UInt32 :=
  (x <<< n) ||| (x >>> (32 - n))

/-- The sixteen words of the state, row by row. -/
structure State where
  /-- The first row. -/
  a : Row
  /-- The second row. -/
  b : Row
  /-- The third row. -/
  c : Row
  /-- The fourth row. -/
  d : Row

namespace State

/-- The quarter round on every column. -/
def columnRound (s : State) : State :=
  let a := s.a.zip (· + ·) s.b
  let d := (s.d.zip (· ^^^ ·) a).map (rotateLeft 16)
  let c := s.c.zip (· + ·) d
  let b := (s.b.zip (· ^^^ ·) c).map (rotateLeft 12)
  let a := a.zip (· + ·) b
  let d := (d.zip (· ^^^ ·) a).map (rotateLeft 8)
  let c := c.zip (· + ·) d
  let b := (b.zip (· ^^^ ·) c).map (rotateLeft 7)
  ⟨a, b, c, d⟩

/-- A round on the columns and a round on the diagonals. -/
def doubleRound (s : State) : State :=
  let s := s.columnRound
  let s := columnRound ⟨s.a, s.b.turn, s.c.turn.turn, s.d.turn.turn.turn⟩
  ⟨s.a, s.b.turn.turn.turn, s.c.turn.turn, s.d.turn⟩

/-- Two states added word by word. -/
def add (s t : State) : State :=
  ⟨s.a.zip (· + ·) t.a, s.b.zip (· + ·) t.b, s.c.zip (· + ·) t.c, s.d.zip (· + ·) t.d⟩

/-- The words of a state. -/
def words (s : State) : List UInt32 :=
  s.a.words ++ s.b.words ++ s.c.words ++ s.d.words

end State

/-- A key of eight words. -/
structure Key where
  /-- The first half. -/
  high : Row
  /-- The second half. -/
  low : Row

/-- The row with which every state begins. -/
def constants : Row :=
  ⟨0x61707865, 0x3320646e, 0x79622d32, 0x6b206574⟩

/-- One block of the stream of a key. -/
def block (key : Key) (number : UInt64) : List UInt32 :=
  let counter : Row := ⟨number.toUInt32, (number >>> 32).toUInt32, 0, 0⟩
  let start : State := ⟨constants, key.high, key.low, counter⟩
  let finish :=
    (((((start.doubleRound).doubleRound).doubleRound).doubleRound).doubleRound).doubleRound
  (finish.add start).words

/-! ## Keys from seeds -/

/-- One step of the generator that expands a seed. -/
def expandStep (state : UInt64) : UInt64 :=
  state * 6364136223846793005 + 11634580027462260723

/-- The word that a state of the expanding generator stands for. -/
def expandWord (state : UInt64) : UInt32 :=
  let mixed := (((state >>> 18) ^^^ state) >>> 27).toUInt32
  let turn := (state >>> 59).toUInt32
  (mixed >>> turn) ||| (mixed <<< ((32 - turn) % 32))

/-- The key that a seed is expanded to. -/
def Key.ofSeed (seed : UInt64) : Key :=
  let s₀ := expandStep seed
  let s₁ := expandStep s₀
  let s₂ := expandStep s₁
  let s₃ := expandStep s₂
  let s₄ := expandStep s₃
  let s₅ := expandStep s₄
  let s₆ := expandStep s₅
  let s₇ := expandStep s₆
  ⟨⟨expandWord s₀, expandWord s₁, expandWord s₂, expandWord s₃⟩,
    ⟨expandWord s₄, expandWord s₅, expandWord s₆, expandWord s₇⟩⟩

end ChaCha

/-- A place in the stream of a key. -/
structure Generator where
  /-- The key. -/
  key : ChaCha.Key
  /-- The number of words that have been taken. -/
  taken : Nat

namespace Generator

/-- The beginning of the stream of a seed. -/
def ofSeed (seed : UInt64) : Generator where
  key := ChaCha.Key.ofSeed seed
  taken := 0

/-- The word at a place in the stream. -/
def word (generator : Generator) (place : Nat) : UInt32 :=
  (ChaCha.block generator.key (UInt64.ofNat (place / 16)))[place % 16]?.getD 0

/-- The next two words as one number, the first one lower. -/
def next (generator : Generator) : UInt64 × Generator :=
  let low := generator.word generator.taken
  let high := generator.word (generator.taken + 1)
  (low.toUInt64 ||| (high.toUInt64 <<< 32), { generator with taken := generator.taken + 2 })

/-- A number from zero up to but not including one, a multiple of `2 ^ -53`. -/
def uniform (generator : Generator) : Float × Generator :=
  let (bits, generator) := generator.next
  ((bits >>> 11).toFloat / 9007199254740992.0, generator)

end Generator

end Proximity

import Proximity.Bytes

set_option autoImplicit false
set_option relaxedAutoImplicit false

/-!
# Single precision numbers

Components, distances and scores are numbers of the IEEE 754 binary32 format. They are held as
their bit patterns, because two patterns that stand for "not a number" still differ in the total
order by which candidates are sorted.

## Design

Arithmetic on numbers is that of the core type `Float32`. What it leaves open is fixed here: an
operation with an operand that is not a number answers that operand, the left one first, with its
quiet bit set, and an operation that is invalid on numbers answers `Single.invalid`.

## Main definitions

* `Proximity.Single` — a bit pattern of the format.
* `Proximity.Single.value`, `Proximity.Single.lt` — the order of the numbers, in which the two
  zeros are equal and nothing is comparable to a pattern that is not a number.
* `Proximity.Single.rank` — the total order of all patterns.
* `Proximity.Single.nearestInt` — rounding to an integer, halves away from zero, with a limit.
-/

namespace Proximity

/-- A number of the IEEE 754 binary32 format, by its bits. -/
structure Single where
  /-- Sign, exponent and fraction, from the highest bit down. -/
  bits : UInt32
deriving DecidableEq

namespace Single

/-! ## Parts of a pattern -/

/-- The pattern without its sign. -/
def magnitude (x : Single) : UInt32 :=
  x.bits &&& 0x7fffffff

/-- Whether the sign bit is set. -/
def isNegative (x : Single) : Bool :=
  0x80000000 ≤ x.bits

/-- Whether the pattern stands for no number. -/
def isNaN (x : Single) : Bool :=
  0x7f800000 < x.magnitude

/-- Whether the pattern stands for a number that is not infinite. -/
def isFinite (x : Single) : Bool :=
  x.magnitude < 0x7f800000

/-- The number zero. -/
def zero : Single := ⟨0⟩

/-- The number zero with its sign bit set. -/
def negativeZero : Single := ⟨0x80000000⟩

/-- The number one. -/
def one : Single := ⟨0x3f800000⟩

/-- The number minus one. -/
def minusOne : Single := ⟨0xbf800000⟩

/-- What an invalid operation on numbers answers. -/
def invalid : Single := ⟨0xffc00000⟩

/-- The same number without its sign. -/
def abs (x : Single) : Single :=
  ⟨x.magnitude⟩

/-- The pattern with its quiet bit set. -/
def quiet (x : Single) : Single :=
  ⟨x.bits ||| 0x00400000⟩

/-! ## Order -/

/-- A key that orders numbers as their values do; the two zeros share it. -/
def value (x : Single) : Int :=
  if x.isNegative then -(x.magnitude.toNat : Int) else (x.magnitude.toNat : Int)

/-- Whether one number is less than another. -/
def lt (x y : Single) : Bool :=
  !x.isNaN && !y.isNaN && x.value < y.value

/-- Whether one number is less than another or equal to it. -/
def le (x y : Single) : Bool :=
  !x.isNaN && !y.isNaN && x.value ≤ y.value

/-- Whether two numbers are equal. -/
def equal (x y : Single) : Bool :=
  !x.isNaN && !y.isNaN && x.value == y.value

/-- The place of a pattern in the total order: negative patterns that are no numbers come first,
then the numbers, the negative zero before the positive one, then the other patterns. -/
def rank (x : Single) : Int :=
  if x.isNegative then -(x.magnitude.toNat : Int) - 1 else (x.magnitude.toNat : Int)

/-! ## Arithmetic -/

/-- The pattern of a result that core arithmetic has computed. -/
@[inline]
def ofFloat (result : Float32) : Single :=
  if result.isNaN then invalid else ⟨result.toBits⟩

/-- Core arithmetic on two operands. -/
@[inline]
def operate (op : Float32 → Float32 → Float32) (x y : Single) : Single :=
  if x.isNaN then x.quiet
  else if y.isNaN then y.quiet
  else ofFloat (op (Float32.ofBits x.bits) (Float32.ofBits y.bits))

/-- The rounded sum. -/
instance : Add Single := ⟨operate Float32.add⟩

/-- The rounded difference. -/
instance : Sub Single := ⟨operate Float32.sub⟩

/-- The rounded product. -/
instance : Mul Single := ⟨operate Float32.mul⟩

/-- The rounded quotient. -/
instance : Div Single := ⟨operate Float32.div⟩

/-- The square root. -/
def sqrt (x : Single) : Single :=
  if x.isNaN then x.quiet else ofFloat (Float32.ofBits x.bits).sqrt

/-- The greater of two numbers. -/
def max (x y : Single) : Single :=
  if x.lt y then y else x

/-- The nearest number to `x` between `low` and `high`; what is no number stays as it is. -/
def clamp (x low high : Single) : Single :=
  if x.lt low then low else if high.lt x then high else x

/-! ## Integers -/

/-- The number nearest to a natural number below `2 ^ 64`, a tie going to the even one. -/
def ofNat (n : Nat) : Single :=
  ⟨n.toUInt64.toFloat32.toBits⟩

/-- The number nearest to an integer. -/
def ofInt : Int → Single
  | .ofNat n => ofNat n
  | .negSucc n => ⟨(ofNat (n + 1)).bits ||| 0x80000000⟩

/-- The natural number nearest to the magnitude, a half going up; an infinity counts as `2 ^
128`. -/
def nearestNat (x : Single) : Nat :=
  let exponent := (x.magnitude >>> 23).toNat
  let fraction := (x.magnitude &&& 0x007fffff).toNat
  let significand := if exponent = 0 then fraction else 0x00800000 + fraction
  let scale := Nat.max exponent 1
  if 150 ≤ scale then significand <<< (scale - 150)
  else (2 * significand + 1 <<< (150 - scale)) >>> (151 - scale)

/-- The integer nearest to a number, a half going away from zero, brought into the range from
`-limit` to `limit`; what is no number counts as zero. -/
def nearestInt (x : Single) (limit : Nat) : Int :=
  if x.isNaN then 0
  else if x.isNegative then -(Nat.min x.nearestNat limit : Int)
  else (Nat.min x.nearestNat limit : Int)

/-! ## Bytes -/

/-- The number that four bytes hold, least significant byte first. -/
@[inline]
def ofBytes (b₀ b₁ b₂ b₃ : UInt8) : Single :=
  ⟨b₀.toUInt32 ||| (b₁.toUInt32 <<< 8) ||| (b₂.toUInt32 <<< 16) ||| (b₃.toUInt32 <<< 24)⟩

/-- The four bytes of a number, least significant byte first. -/
def toBytes (x : Single) : Bytes :=
  Bytes.littleEndian 4 x.bits.toNat

/-- The numbers that a byte string holds, four bytes each, put after those already `read`; up to
three bytes at the end belong to none. -/
def readAll (read : List Single) : Bytes → List Single
  | b₀ :: b₁ :: b₂ :: b₃ :: rest => readAll (ofBytes b₀ b₁ b₂ b₃ :: read) rest
  | _ => read.reverse

/-- The numbers that a byte string holds, four bytes each; up to three bytes at the end belong to
none. -/
def listOfBytes (bytes : Bytes) : List Single :=
  readAll [] bytes

/-- The bytes of a list of numbers. -/
def bytesOfList (numbers : List Single) : Bytes :=
  numbers.flatMap toBytes

end Single

end Proximity

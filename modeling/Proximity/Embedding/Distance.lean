import Proximity.Single
import Proximity.Embedding.Precision

set_option autoImplicit false
set_option relaxedAutoImplicit false

/-!
# Distances

The distance of two encoded embeddings, computed on their bytes and lower for closer ones. Where
the two differ in length, their common beginning is compared.

## Main definitions

* `Proximity.Distance.cosine`, `Proximity.Distance.euclidean` — on single precision components.
* `Proximity.Distance.cosineInt8`, `Proximity.Distance.euclideanInt8` — on signed bytes that are
  followed by a scale.
* `Proximity.Distance.differingBits` — on bits.
* `Proximity.distance` — the distance at a precision by a metric.
-/

namespace Proximity

namespace Distance

/-! ## The cosine -/

/-- One minus the cosine, from the scalar product and the two squared lengths; an embedding of
length zero is at distance one from everything. -/
def ofProducts (dot squareA squareB : Single) : Single :=
  if squareA.equal .zero || squareB.equal .zero then .one
  else
    let cosine := dot / (squareA.sqrt * squareB.sqrt)
    .one - cosine.clamp .minusOne .one

/-- The cosine distance, with the products of the components seen before. -/
def cosineFrom (dot squareA squareB : Single) : List Single → List Single → Single
  | x :: xs, y :: ys => cosineFrom (dot + x * y) (squareA + x * x) (squareB + y * y) xs ys
  | _, _ => ofProducts dot squareA squareB

/-- One minus the cosine of two embeddings. -/
def cosine (a b : Bytes) : Single :=
  cosineFrom .zero .zero .zero (Single.listOfBytes a) (Single.listOfBytes b)

/-! ## The length of the difference -/

/-- The length of the difference, with the sum of the squares seen before. -/
def euclideanFrom (sum : Single) : List Single → List Single → Single
  | x :: xs, y :: ys => euclideanFrom (sum + (x - y) * (x - y)) xs ys
  | _, _ => sum.sqrt

/-- The length of the difference of two embeddings; a sum without terms is the negative zero. -/
def euclidean (a b : Bytes) : Single :=
  euclideanFrom .negativeZero (Single.listOfBytes a) (Single.listOfBytes b)

/-! ## Signed bytes with a scale -/

/-- The number of bytes that the scale takes. -/
def scaleWidth : Nat := 4

/-- The components of a signed byte embedding. -/
def int8Components (bytes : Bytes) : List Int :=
  (bytes.take (bytes.length - scaleWidth)).map fun byte => byte.toInt8.toInt

/-- The scale of a signed byte embedding; one that is too short for a scale has scale zero. -/
def int8Scale (bytes : Bytes) : Single :=
  match bytes.drop (bytes.length - scaleWidth) with
  | [b₀, b₁, b₂, b₃] => Single.ofBytes b₀ b₁ b₂ b₃
  | _ => .zero

/-- The scalar product of two lists of integers. -/
def dotProduct (xs ys : List Int) : Int :=
  (xs.zip ys).foldl (fun sum pair => sum + pair.1 * pair.2) 0

/-- One minus the cosine of two signed byte embeddings. The scales would cancel, so the components
alone are compared, in integers. -/
def cosineInt8 (a b : Bytes) : Single :=
  let pairs := (int8Components a).zip (int8Components b)
  let xs := pairs.map Prod.fst
  let ys := pairs.map Prod.snd
  ofProducts (.ofInt (dotProduct xs ys)) (.ofInt (dotProduct xs xs)) (.ofInt (dotProduct ys ys))

/-- The length of the difference of two signed byte embeddings, each component multiplied by the
scale of its embedding. -/
def euclideanInt8 (a b : Bytes) : Single :=
  let scaled (bytes : Bytes) : List Single :=
    let scale := int8Scale bytes
    (int8Components bytes).map fun component => .ofInt component * scale
  euclideanFrom .negativeZero (scaled a) (scaled b)

/-! ## Bits -/

/-- The number of bits that are set in a byte. -/
def countBits (byte : UInt8) : Nat :=
  (List.range 8).countP byte.toNat.testBit

/-- The number of bits in which two byte strings differ, added up in 32 bits. -/
def differingBits (a b : Bytes) : UInt32 :=
  (a.zip b).foldl (fun sum pair => sum + UInt32.ofNat (countBits (pair.1 ^^^ pair.2))) 0

end Distance

/-- The distance of two embeddings that are encoded at the same precision. -/
def distance : Precision → Metric → Bytes → Bytes → Single
  | .single, .cosine, a, b => Distance.cosine a b
  | .single, .euclidean, a, b => Distance.euclidean a b
  | .int8, .cosine, a, b => Distance.cosineInt8 a b
  | .int8, .euclidean, a, b => Distance.euclideanInt8 a b
  | .binary, _, a, b => .ofNat (Distance.differingBits a b).toNat

end Proximity

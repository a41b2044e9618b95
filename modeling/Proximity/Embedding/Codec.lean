import Proximity.Embedding.Distance
import Proximity.Embedding.Options

set_option autoImplicit false
set_option relaxedAutoImplicit false

/-!
# Encoding and scoring

Vectors are given at the source precision of their field and stored at its destination precision.
Single precision vectors can be reduced to signed bytes or to signs; vectors of the other two
precisions are stored as they are.

| precision | layout                                  | length                |
|-----------|-----------------------------------------|-----------------------|
| single    | four bytes for each component           | four times components |
| int8      | one byte for each component, then scale | components plus four  |
| binary    | one bit for each component, high first  | an eighth, rounded up |

## Main definitions

* `Proximity.encodeVector` — from source to destination precision.
* `Proximity.Codec` — the precisions and the metric of one field.
* `Proximity.Codec.score` — the similarity that a distance stands for.
-/

namespace Proximity

namespace Encoding

/-- The check that a given vector has the form of its precision. -/
def check : Precision → Bytes → Except IndexError Unit
  | .single, raw => do
    if raw.isEmpty || raw.length % 4 ≠ 0 then
      throw (.corruptInput
        (toString raw.length ++ " bytes is not a whole number of f32 components"))
    if (Single.listOfBytes raw).any fun x => !x.isFinite then
      throw (.corruptInput "vector contains NaN or infinity")
  | .int8, raw => do
    if raw.length ≤ Distance.scaleWidth then
      throw (.corruptInput "int8 vector is missing its scale trailer")
  | .binary, raw => do
    if raw.isEmpty then throw (.corruptInput "empty binary vector")

/-- The byte that holds a signed integer. -/
def signedByte (n : Int) : UInt8 :=
  UInt8.ofNat (n % 256).toNat

/-- The scale of a reduction to signed bytes: the greatest component becomes 127. -/
def int8ScaleOf (components : List Single) : Single :=
  components.foldl (fun greatest x => greatest.max x.abs) .zero / .ofNat 127

/-- The reduction to signed bytes: each component divided by the scale and rounded, and the scale
behind them. -/
def toInt8 (components : List Single) : Bytes :=
  let scale := int8ScaleOf components
  let byte (x : Single) : UInt8 :=
    if scale.equal .zero then 0 else signedByte ((x / scale).nearestInt 127)
  components.map byte ++ scale.toBytes

/-- The byte with these bits, the highest first. -/
def byteOfBits (bits : List Bool) : UInt8 :=
  (bits.zip [0x80, 0x40, 0x20, 0x10, 0x08, 0x04, 0x02, 0x01]).foldl
    (fun byte bit => if bit.1 then byte ||| bit.2 else byte) 0

/-- The bytes with these bits, the highest of each byte first, and zeros behind the last bit. -/
def packBits : List Bool → Bytes
  | [] => []
  | bit :: bits => byteOfBits (bit :: bits.take 7) :: packBits (bits.drop 7)
termination_by bits => bits.length
decreasing_by
  simp only [List.length_drop, List.length_cons]
  omega

/-- The reduction to signs: a bit is set where the component is not below zero. -/
def toBinary (components : List Single) : Bytes :=
  packBits (components.map fun x => Single.zero.le x)

end Encoding

/-- The stored form of a given vector. -/
def encodeVector (source destination : Precision) (raw : Bytes) : Except IndexError Bytes := do
  Encoding.check source raw
  match source, destination with
  | .single, .single => return raw
  | .single, .int8 => return Encoding.toInt8 (Single.listOfBytes raw)
  | .single, .binary => return Encoding.toBinary (Single.listOfBytes raw)
  | .int8, .int8 => return raw
  | .binary, .binary => return raw
  | source, destination => throw (.unsupportedEncoding source destination)

/-- The precisions and the metric of one field. -/
structure Codec where
  /-- The precision in which vectors are given. -/
  source : Precision
  /-- The precision in which vectors are stored. -/
  destination : Precision
  /-- How vectors are compared. -/
  metric : Metric
deriving DecidableEq

namespace Codec

/-- The codec of a field with these options. -/
def ofOptions (options : FieldOptions) : Codec where
  source := options.source
  destination := options.destination
  metric := options.metric

/-- The stored form of a given vector. -/
def encode (codec : Codec) (raw : Bytes) : Except IndexError Bytes :=
  encodeVector codec.source codec.destination raw

/-- The distance of two stored vectors. -/
def distance (codec : Codec) (a b : Bytes) : Single :=
  Proximity.distance codec.destination codec.metric a b

/-- The similarity that a distance stands for, higher for closer vectors: the fraction of equal
bits, the cosine, or one divided by one plus the distance. -/
def score (codec : Codec) (distance : Single) (vectorLength : Nat) : Single :=
  match codec.destination, codec.metric with
  | .binary, _ => .one - distance / .ofNat (max (vectorLength * 8) 1)
  | _, .cosine => .one - distance
  | _, .euclidean => .one / (.one + distance)

end Codec

end Proximity

set_option autoImplicit false
set_option relaxedAutoImplicit false

/-!
# Byte strings

Keys, values, raw vectors and encoded vectors are finite strings of bytes. A number is written
into one with a fixed width, most significant byte first where byte order has to agree with
numeric order, and least significant byte first inside a vector.

## Main definitions

* `Proximity.Bytes` — byte strings.
* `Proximity.Bytes.ofText`, `Proximity.Bytes.toText?` — the UTF-8 bytes of a text, and back.
* `Proximity.Bytes.bigEndian`, `Proximity.Bytes.ofBigEndian` — numbers of a fixed width.
* `Proximity.Bytes.split?`, `Proximity.Bytes.after?` — the parts of a byte string.
-/

namespace Proximity

/-- A finite string of bytes. -/
abbrev Bytes := List UInt8

namespace Bytes

/-- The UTF-8 bytes of a text. -/
def ofText (text : String) : Bytes :=
  text.toUTF8.data.toList

/-- The text whose UTF-8 bytes these are, if they are any text's. -/
def toText? (bytes : Bytes) : Option String :=
  String.fromUTF8? ⟨bytes.toArray⟩

/-- The lowest `width` bytes of a number, least significant byte first. -/
def littleEndian : (width number : Nat) → Bytes
  | 0, _ => []
  | width + 1, number => UInt8.ofNat number :: littleEndian width (number / 256)

/-- The lowest `width` bytes of a number, most significant byte first. -/
def bigEndian (width number : Nat) : Bytes :=
  (littleEndian width number).reverse

/-- The number whose digits to base 256, most significant first, are these bytes. -/
def ofBigEndian (bytes : Bytes) : Nat :=
  bytes.foldl (fun number byte => number * 256 + byte.toNat) 0

/-- The number whose digits to base 256, most significant first, are these bytes, where the first
digit counts from -128 to 127. -/
def ofSignedBigEndian : Bytes → Int
  | [] => 0
  | byte :: bytes =>
    bytes.foldl (fun number byte => number * 256 + (byte.toNat : Int)) byte.toInt8.toInt

/-- The first `length` bytes and the rest, if there are that many. -/
def split? : (length : Nat) → Bytes → Option (Bytes × Bytes)
  | 0, bytes => some ([], bytes)
  | _ + 1, [] => none
  | length + 1, byte :: bytes => do
    let (first, rest) ← split? length bytes
    return (byte :: first, rest)

/-- What follows `stem` in a byte string that starts with it. -/
def after? : (stem bytes : Bytes) → Option Bytes
  | [], bytes => some bytes
  | _ :: _, [] => none
  | s :: stem, b :: bytes => if s = b then after? stem bytes else none

/-- Whether a byte string starts with `stem`. -/
def startsWith (bytes stem : Bytes) : Bool :=
  (after? stem bytes).isSome

/-! ## Elementary facts -/

/-- A number takes the bytes that it is given. -/
@[simp]
theorem length_littleEndian (width number : Nat) : (littleEndian width number).length = width := by
  induction width generalizing number with
  | zero => rfl
  | succ width ih => simp [littleEndian, ih]

/-- A number takes the bytes that it is given. -/
@[simp]
theorem length_bigEndian (width number : Nat) : (bigEndian width number).length = width := by
  simp [bigEndian]

/-- What follows a stem is the rest of the bytes that begin with it. -/
theorem after?_eq_some_iff {stem bytes rest : Bytes} :
    after? stem bytes = some rest ↔ bytes = stem ++ rest := by
  induction stem generalizing bytes with
  | nil => simp [after?, eq_comm]
  | cons s stem ih =>
    cases bytes with
    | nil => simp [after?]
    | cons b bytes =>
      by_cases h : s = b
      · simp [after?, h, ih]
      · simp [after?, h, Ne.symm h]

/-- Bytes begin with a stem if they are the stem and a rest. -/
theorem startsWith_iff {bytes stem : Bytes} :
    bytes.startsWith stem = true ↔ ∃ rest, bytes = stem ++ rest := by
  simp [startsWith, Option.isSome_iff_exists, after?_eq_some_iff]

end Bytes

end Proximity

import Proximity.MessagePack.Item

set_option autoImplicit false
set_option relaxedAutoImplicit false

/-!
# Reading MessagePack

A reader accepts every form of an item, also longer ones than a writer would choose, and answers
the item together with what stands behind it.

## Design

The depth to which items may be nested is limited, so reading is a recursion on that limit. Items
that hold others, an application's own values among them, count towards it whether they are empty or
not, and plain ones do not. A count that promises more items than there are bytes fails at the first
one that is missing.

## Main definitions

* `Proximity.MessagePack.Item.read` — the item at the beginning of a byte string.
-/

namespace Proximity.MessagePack

/-- The number of items that may be nested in one another, not counting the plain one inside. -/
def maxDepth : Nat := 1023

/-- The number of a fixed width at the beginning of a byte string. -/
def readNat (width : Nat) (bytes : Bytes) : Option (Nat × Bytes) := do
  let (digits, rest) ← Bytes.split? width bytes
  return (Bytes.ofBigEndian digits, rest)

/-- The signed number of a fixed width at the beginning of a byte string. -/
def readSigned (width : Nat) (bytes : Bytes) : Option (Int × Bytes) := do
  let (digits, rest) ← Bytes.split? width bytes
  return (Bytes.ofSignedBigEndian digits, rest)

/-- The byte string whose length stands before it with a fixed width. -/
def readBlock (width : Nat) (bytes : Bytes) : Option (Bytes × Bytes) := do
  let (length, rest) ← readNat width bytes
  Bytes.split? length rest

/-- The kind and the bytes of an application's own value. -/
def readExt (length : Nat) : Bytes → Option (Item × Bytes)
  | [] => none
  | kind :: rest => do
    let (payload, rest) ← Bytes.split? length rest
    return (.ext kind payload, rest)

/-- As many items as `count` says, each read by `item`. -/
def readMany (item : Bytes → Option (Item × Bytes)) : (count : Nat) → Bytes →
    Option (List Item × Bytes)
  | 0, bytes => some ([], bytes)
  | count + 1, bytes => do
    let (first, rest) ← item bytes
    let (others, rest) ← readMany item count rest
    return (first :: others, rest)

/-- The list of `count` items, each read by `item`. -/
def readArray (item : Bytes → Option (Item × Bytes)) (count : Nat) (bytes : Bytes) :
    Option (Item × Bytes) := do
  let (items, rest) ← readMany item count bytes
  return (.array items, rest)

/-- The map of `count` entries, each key and value read by `item`. -/
def readMap (item : Bytes → Option (Item × Bytes)) (count : Nat) (bytes : Bytes) :
    Option (Item × Bytes) := do
  let (items, rest) ← readMany item (2 * count) bytes
  return (.map items, rest)

/-- Whether an item with this marker holds other values: a list, a map, or an application's own
value. -/
def isNesting (marker : Nat) : Bool :=
  (0x80 ≤ marker && marker < 0xa0) || (0xc7 ≤ marker && marker < 0xca)
    || (0xd4 ≤ marker && marker < 0xd9) || (0xdc ≤ marker && marker < 0xe0)

/-- The item behind a marker of an item that holds others, which are read by `item`. -/
def readNesting (item : Bytes → Option (Item × Bytes)) (marker : Nat) (bytes : Bytes) :
    Option (Item × Bytes) :=
  if marker < 0x90 then readMap item (marker - 0x80) bytes
  else if marker < 0xa0 then readArray item (marker - 0x90) bytes
  else match marker with
    | 0xc7 => do let (length, rest) ← readNat 1 bytes; readExt length rest
    | 0xc8 => do let (length, rest) ← readNat 2 bytes; readExt length rest
    | 0xc9 => do let (length, rest) ← readNat 4 bytes; readExt length rest
    | 0xd4 => readExt 1 bytes
    | 0xd5 => readExt 2 bytes
    | 0xd6 => readExt 4 bytes
    | 0xd7 => readExt 8 bytes
    | 0xd8 => readExt 16 bytes
    | 0xdc => do let (count, rest) ← readNat 2 bytes; readArray item count rest
    | 0xdd => do let (count, rest) ← readNat 4 bytes; readArray item count rest
    | 0xde => do let (count, rest) ← readNat 2 bytes; readMap item count rest
    | 0xdf => do let (count, rest) ← readNat 4 bytes; readMap item count rest
    | _ => none

/-- The item behind a marker of an item that holds no others. -/
def readPlain (marker : Nat) (bytes : Bytes) : Option (Item × Bytes) :=
  if marker < 0x80 then some (.unsigned marker, bytes)
  else if 0xe0 ≤ marker then some (.signed ((marker : Int) - 0x100), bytes)
  else if 0xa0 ≤ marker ∧ marker < 0xc0 then do
    let (text, rest) ← Bytes.split? (marker - 0xa0) bytes
    return (.str text, rest)
  else match marker with
    | 0xc0 => some (.nil, bytes)
    | 0xc2 => some (.bool false, bytes)
    | 0xc3 => some (.bool true, bytes)
    | 0xc4 => do let (block, rest) ← readBlock 1 bytes; return (.bin block, rest)
    | 0xc5 => do let (block, rest) ← readBlock 2 bytes; return (.bin block, rest)
    | 0xc6 => do let (block, rest) ← readBlock 4 bytes; return (.bin block, rest)
    | 0xca => do let (n, rest) ← readNat 4 bytes; return (.float32 (UInt32.ofNat n), rest)
    | 0xcb => do let (n, rest) ← readNat 8 bytes; return (.float64 (UInt64.ofNat n), rest)
    | 0xcc => do let (n, rest) ← readNat 1 bytes; return (.unsigned n, rest)
    | 0xcd => do let (n, rest) ← readNat 2 bytes; return (.unsigned n, rest)
    | 0xce => do let (n, rest) ← readNat 4 bytes; return (.unsigned n, rest)
    | 0xcf => do let (n, rest) ← readNat 8 bytes; return (.unsigned n, rest)
    | 0xd0 => do let (n, rest) ← readSigned 1 bytes; return (.signed n, rest)
    | 0xd1 => do let (n, rest) ← readSigned 2 bytes; return (.signed n, rest)
    | 0xd2 => do let (n, rest) ← readSigned 4 bytes; return (.signed n, rest)
    | 0xd3 => do let (n, rest) ← readSigned 8 bytes; return (.signed n, rest)
    | 0xd9 => do let (block, rest) ← readBlock 1 bytes; return (.str block, rest)
    | 0xda => do let (block, rest) ← readBlock 2 bytes; return (.str block, rest)
    | 0xdb => do let (block, rest) ← readBlock 4 bytes; return (.str block, rest)
    | _ => none

/-- The item at the beginning of a byte string and what stands behind it, with items nested in one
another no deeper than `depth`. -/
def Item.read : (depth : Nat) → Bytes → Option (Item × Bytes)
  | _, [] => none
  | 0, marker :: bytes =>
    if isNesting marker.toNat then none else readPlain marker.toNat bytes
  | depth + 1, marker :: bytes =>
    if isNesting marker.toNat then readNesting (Item.read depth) marker.toNat bytes
    else readPlain marker.toNat bytes

end Proximity.MessagePack

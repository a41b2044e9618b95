import Proximity.MessagePack.Item

set_option autoImplicit false
set_option relaxedAutoImplicit false

/-!
# Writing MessagePack

Every item has one written form: integers, lengths and counts take the shortest marker that holds
them. Lengths and counts are kept in 32 bits.

## Main definitions

* `Proximity.MessagePack.Item.write` — the written form of an item.
-/

namespace Proximity.MessagePack

/-- A marker byte and a number of a fixed width behind it. -/
def marked (marker : UInt8) (width number : Nat) : Bytes :=
  marker :: Bytes.bigEndian width number

/-- The written form of a number that is not negative. -/
def writeNat (n : Nat) : Bytes :=
  if n < 0x80 then [UInt8.ofNat n]
  else if n < 0x100 then marked 0xcc 1 n
  else if n < 0x10000 then marked 0xcd 2 n
  else if n < 0x100000000 then marked 0xce 4 n
  else marked 0xcf 8 n

/-- The written form of an integer: without a sign unless it is negative, and then as the complement
of its width. -/
def writeInt : Int → Bytes
  | .ofNat n => writeNat n
  | .negSucc n =>
    if n < 0x20 then [UInt8.ofNat (0xff - n)]
    else if n < 0x80 then marked 0xd0 1 (0xff - n)
    else if n < 0x8000 then marked 0xd1 2 (0xffff - n)
    else if n < 0x80000000 then marked 0xd2 4 (0xffffffff - n)
    else marked 0xd3 8 (0xffffffffffffffff - n)

/-- What stands before the bytes of a text. -/
def strHeader (length : Nat) : Bytes :=
  if length < 0x20 then [UInt8.ofNat (0xa0 + length)]
  else if length < 0x100 then marked 0xd9 1 length
  else if length < 0x10000 then marked 0xda 2 length
  else marked 0xdb 4 length

/-- What stands before the bytes of a byte string. -/
def binHeader (length : Nat) : Bytes :=
  if length < 0x100 then marked 0xc4 1 length
  else if length < 0x10000 then marked 0xc5 2 length
  else marked 0xc6 4 length

/-- What stands before the items of a list. -/
def arrayHeader (count : Nat) : Bytes :=
  if count < 0x10 then [UInt8.ofNat (0x90 + count)]
  else if count < 0x10000 then marked 0xdc 2 count
  else marked 0xdd 4 count

/-- What stands before the entries of a map. -/
def mapHeader (count : Nat) : Bytes :=
  if count < 0x10 then [UInt8.ofNat (0x80 + count)]
  else if count < 0x10000 then marked 0xde 2 count
  else marked 0xdf 4 count

/-- What stands before the kind and the bytes of an application's own value. -/
def extHeader (length : Nat) : Bytes :=
  if length = 1 then [0xd4]
  else if length = 2 then [0xd5]
  else if length = 4 then [0xd6]
  else if length = 8 then [0xd7]
  else if length = 16 then [0xd8]
  else if length < 0x100 then marked 0xc7 1 length
  else if length < 0x10000 then marked 0xc8 2 length
  else marked 0xc9 4 length

/-- A length or a count as it is written. -/
def word (length : Nat) : Nat :=
  length % UInt32.size

mutual

/-- The written form of an item. -/
def Item.write : Item → Bytes
  | .nil => [0xc0]
  | .bool value => [if value then 0xc3 else 0xc2]
  | .unsigned value => writeNat value
  | .signed value => writeInt value
  | .float32 bits => marked 0xca 4 bits.toNat
  | .float64 bits => marked 0xcb 8 bits.toNat
  | .str bytes => strHeader (word bytes.length) ++ bytes
  | .bin bytes => binHeader (word bytes.length) ++ bytes
  | .array items => arrayHeader (word items.length) ++ writeAll items
  | .map items => mapHeader (word (items.length / 2)) ++ writeAll items
  | .ext kind payload => extHeader (word payload.length) ++ kind :: payload

/-- The written forms of items, one behind the other. -/
def writeAll : List Item → Bytes
  | [] => []
  | item :: items => item.write ++ writeAll items

end

end Proximity.MessagePack

import Proximity.MessagePack.Storable
import Proximity.Proofs.Bytes

set_option relaxedAutoImplicit false
set_option autoImplicit false

/-!
# Items read back

What a writer writes of an item is read back as that item, together with whatever stands behind it,
if the numbers, lengths and nesting of the item are within what the format can hold. Records are
made of four kinds of item only: numbers without a sign, texts, nil, and lists of these.

## Main definitions

* `Proximity.MessagePack.Item.Fits` — an item of those kinds that the format can hold.

## Main results

* `Proximity.MessagePack.Item.read_write` — an item that fits is read back.
* `Proximity.MessagePack.decode_encode` — so is a record whose item fits.
-/

namespace Proximity.MessagePack

/-! ## What the format can hold -/

/-- An item of the kinds that records are made of, nested no deeper than `depth`, whose numbers and
lengths the format can hold. -/
def Item.Fits : (depth : Nat) → Item → Prop
  | _, .nil => True
  | _, .unsigned value => value < 2 ^ 64
  | _, .str bytes => bytes.length < 2 ^ 32
  | depth + 1, .array items => items.length < 2 ^ 32 ∧ ∀ item ∈ items, item.Fits depth
  | _, _ => False

/-! ## Parts -/

/-- A number that fits into so many bytes is read back from them. -/
lemma readNat_bigEndian {width n : Nat} (h : n < 256 ^ width) (rest : Bytes) :
    readNat width (Bytes.bigEndian width n ++ rest) = some (n, rest) := by
  have hsplit := Bytes.split?_append (Bytes.bigEndian width n) rest
  rw [Bytes.length_bigEndian] at hsplit
  simp [readNat, hsplit, Bytes.ofBigEndian_bigEndian h]

/-- A block behind its length is read back. -/
lemma readBlock_bigEndian {width : Nat} {block : Bytes} (h : block.length < 256 ^ width)
    (rest : Bytes) :
    readBlock width (Bytes.bigEndian width block.length ++ (block ++ rest)) =
      some (block, rest) := by
  simp [readBlock, readNat_bigEndian h, Bytes.split?_append]

/-- An item behind a marker that nests nothing is read the same at every depth. -/
lemma Item.read_plain {marker : UInt8} (h : isNesting marker.toNat = false) (depth : Nat)
    (bytes : Bytes) : Item.read depth (marker :: bytes) = readPlain marker.toNat bytes := by
  cases depth <;> simp [Item.read, h]

/-- An item behind a marker that nests others is read from them. -/
lemma Item.read_nesting {marker : UInt8} (h : isNesting marker.toNat = true) (depth : Nat)
    (bytes : Bytes) :
    Item.read (depth + 1) (marker :: bytes) = readNesting (Item.read depth) marker.toNat bytes := by
  simp [Item.read, h]

/-! ## Numbers and texts -/

/-- A number below 256 is that of a byte. -/
lemma toNat_ofNat_of_lt {n : Nat} (h : n < 256) : (UInt8.ofNat n).toNat = n := by
  rw [UInt8.toNat_ofNat']
  exact Nat.mod_eq_of_lt h

/-- A number in its shortest form is read back.

**Proof sketch.** One case for each of the five forms; the marker tells how many bytes follow. -/
lemma read_writeNat {n : Nat} (h : n < 2 ^ 64) (depth : Nat) (rest : Bytes) :
    Item.read depth (writeNat n ++ rest) = some (.unsigned n, rest) := by
  unfold writeNat
  split_ifs with h1 h2 h3 h4
  · have hn : (UInt8.ofNat n).toNat = n := toNat_ofNat_of_lt (by omega)
    rw [List.singleton_append, Item.read_plain (by rw [hn]; simp [isNesting]; omega), hn]
    unfold readPlain
    rw [if_pos h1]
  · rw [marked, List.cons_append, Item.read_plain (by decide)]
    simp [readPlain, readNat_bigEndian (by omega : n < 256 ^ 1)]
  · rw [marked, List.cons_append, Item.read_plain (by decide)]
    simp [readPlain, readNat_bigEndian (by omega : n < 256 ^ 2)]
  · rw [marked, List.cons_append, Item.read_plain (by decide)]
    simp [readPlain, readNat_bigEndian (by omega : n < 256 ^ 4)]
  · rw [marked, List.cons_append, Item.read_plain (by decide)]
    simp [readPlain, readNat_bigEndian (by omega : n < 256 ^ 8)]

/-- A length within the limits of the format is written as it is. -/
lemma word_of_lt {length : Nat} (h : length < 2 ^ 32) : word length = length :=
  Nat.mod_eq_of_lt h

/-- A text behind its length is read back.

**Proof sketch.** One case for each of the four forms; the marker tells where the length is. -/
lemma read_writeStr {text : Bytes} (h : text.length < 2 ^ 32) (depth : Nat) (rest : Bytes) :
    Item.read depth (strHeader (word text.length) ++ text ++ rest) = some (.str text, rest) := by
  rw [word_of_lt h, strHeader, List.append_assoc]
  split_ifs with h1 h2 h3
  · have hn : (UInt8.ofNat (0xa0 + text.length)).toNat = 0xa0 + text.length :=
      toNat_ofNat_of_lt (by omega)
    rw [List.singleton_append, Item.read_plain (by rw [hn]; simp [isNesting]; omega), hn]
    unfold readPlain
    rw [if_neg (by omega), if_neg (by omega), if_pos (by omega), Nat.add_sub_cancel_left,
      Bytes.split?_append]
    rfl
  · rw [marked, List.cons_append, Item.read_plain (by decide)]
    simp [readPlain, readBlock_bigEndian (by omega : text.length < 256 ^ 1)]
  · rw [marked, List.cons_append, Item.read_plain (by decide)]
    simp [readPlain, readBlock_bigEndian (by omega : text.length < 256 ^ 2)]
  · rw [marked, List.cons_append, Item.read_plain (by decide)]
    simp [readPlain, readBlock_bigEndian (by omega : text.length < 256 ^ 4)]

/-! ## Lists -/

/-- Items that are each read back are read back one after the other. -/
lemma readMany_writeAll {read : Bytes → Option (Item × Bytes)} {items : List Item}
    (h : ∀ item ∈ items, ∀ rest, read (item.write ++ rest) = some (item, rest)) (rest : Bytes) :
    readMany read items.length (writeAll items ++ rest) = some (items, rest) := by
  induction items with
  | nil => rfl
  | cons item items ih =>
    rw [writeAll, List.append_assoc, List.length_cons, readMany, h item (by simp)]
    simp [ih fun other hother => h other (by simp [hother])]

/-- A list of items behind its length is read back. -/
lemma read_writeArray {depth : Nat} {items : List Item} (hlen : items.length < 2 ^ 32)
    (h : ∀ item ∈ items, ∀ rest, Item.read depth (item.write ++ rest) = some (item, rest))
    (rest : Bytes) :
    Item.read (depth + 1) (arrayHeader (word items.length) ++ writeAll items ++ rest) =
      some (.array items, rest) := by
  have hmany := readMany_writeAll h rest
  rw [word_of_lt hlen, arrayHeader, List.append_assoc]
  split_ifs with h1 h2
  · have hn : (UInt8.ofNat (0x90 + items.length)).toNat = 0x90 + items.length :=
      toNat_ofNat_of_lt (by omega)
    rw [List.singleton_append, Item.read_nesting (by rw [hn]; simp [isNesting]; omega), hn]
    unfold readNesting
    rw [if_neg (by omega), if_pos (by omega), Nat.add_sub_cancel_left, readArray, hmany]
    rfl
  · rw [marked, List.cons_append, Item.read_nesting (by decide)]
    simp [readNesting, readNat_bigEndian (by omega : items.length < 256 ^ 2), readArray, hmany]
  · rw [marked, List.cons_append, Item.read_nesting (by decide)]
    simp [readNesting, readNat_bigEndian (by omega : items.length < 256 ^ 4), readArray, hmany]

/-- **An item that fits is read back**, whatever stands behind it.

**Proof sketch.** Induction on the depth. Numbers, texts and nil do not depend on it, and a list
hands the depth below it to its items. -/
theorem Item.read_write {depth : Nat} {item : Item} (h : item.Fits depth) (rest : Bytes) :
    Item.read depth (item.write ++ rest) = some (item, rest) := by
  induction depth generalizing item rest with
  | zero =>
    cases item with
    | nil => rfl
    | unsigned value => exact read_writeNat h 0 rest
    | str text => exact read_writeStr h 0 rest
    | _ => exact h.elim
  | succ depth ih =>
    cases item with
    | nil => rfl
    | unsigned value => exact read_writeNat h (depth + 1) rest
    | str text => exact read_writeStr h (depth + 1) rest
    | array items => exact read_writeArray h.1 (fun item hitem => ih (h.2 item hitem)) rest
    | _ => exact h.elim

/-! ## Records -/

/-- **A record is read back** if its item fits and stands for the record. -/
theorem decode_encode {α : Type} [Storable α] {record : α}
    (hfits : (Storable.toItem record).Fits maxDepth)
    (hitem : Storable.ofItem? (Storable.toItem record) = some record) :
    decode (encode record) = .ok record := by
  have hread := Item.read_write hfits []
  rw [List.append_nil] at hread
  simp [decode, decode?, encode, hread, hitem]

end Proximity.MessagePack

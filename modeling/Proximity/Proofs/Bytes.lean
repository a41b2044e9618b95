import Mathlib.Data.List.Induction
import Mathlib.Data.Nat.ModEq
import Proximity.Bytes

set_option relaxedAutoImplicit false
set_option autoImplicit false

/-!
# Byte strings read back

A number written with a fixed width is read back, provided that it fits; so is a text, and a byte
string can be cut off again from what stands behind it. The byte order of numbers of one width is
their numeric order, and byte strings that start alike are neighbors in it. No byte of a text is a
slash unless one of its characters is.

## Main results

* `Proximity.Bytes.ofBigEndian_bigEndian`, `Proximity.Bytes.toText?_ofText`,
  `Proximity.Bytes.split?_append` — reading back.
* `Proximity.Bytes.compare_bigEndian` — byte order is numeric order.
* `Proximity.Bytes.not_prefix_of_lt` — byte strings that start alike lie together.
* `Proximity.Bytes.slash_notMem_ofText` — a text without a slash has no byte of a slash.
-/

namespace Proximity.Bytes

/-! ## Cutting off -/

/-- The first bytes are split off from those behind them. -/
theorem split?_append (bytes rest : Bytes) :
    split? bytes.length (bytes ++ rest) = some (bytes, rest) := by
  induction bytes with
  | nil => rfl
  | cons byte bytes ih => simp [split?, ih]

/-- The rest follows the stem. -/
lemma after?_append (stem rest : Bytes) : after? stem (stem ++ rest) = some rest :=
  after?_eq_some_iff.mpr rfl

/-! ## Numbers -/

/-- The last byte of a number is its lowest one. -/
lemma ofBigEndian_append (bytes : Bytes) (byte : UInt8) :
    ofBigEndian (bytes ++ [byte]) = ofBigEndian bytes * 256 + byte.toNat := by
  simp [ofBigEndian]

/-- The lowest byte of a number is the last one. -/
lemma bigEndian_succ (width number : Nat) :
    bigEndian (width + 1) number = bigEndian width (number / 256) ++ [UInt8.ofNat number] := by
  simp [bigEndian, littleEndian]

/-- What is read back of a number is what its bytes have room for. -/
lemma ofBigEndian_bigEndian_mod (width number : Nat) :
    ofBigEndian (bigEndian width number) = number % 256 ^ width := by
  induction width generalizing number with
  | zero => simp [bigEndian, littleEndian, ofBigEndian, Nat.mod_one]
  | succ width ih =>
    have hpow : 256 ^ (width + 1) = 256 * 256 ^ width := Nat.pow_succ'
    rw [bigEndian_succ, ofBigEndian_append, ih, UInt8.toNat_ofNat', hpow, Nat.mod_mul]
    omega

/-- A number that fits into the width is read back. -/
theorem ofBigEndian_bigEndian {width number : Nat} (h : number < 256 ^ width) :
    ofBigEndian (bigEndian width number) = number := by
  rw [ofBigEndian_bigEndian_mod, Nat.mod_eq_of_lt h]

/-- Different numbers that have room have different bytes. -/
lemma bigEndian_injOn {width a b : Nat} (ha : a < 256 ^ width) (hb : b < 256 ^ width)
    (h : bigEndian width a = bigEndian width b) : a = b := by
  rw [← ofBigEndian_bigEndian ha, h, ofBigEndian_bigEndian hb]

/-- So many bytes stand for a number in their range. -/
lemma ofBigEndian_lt (bytes : Bytes) : ofBigEndian bytes < 256 ^ bytes.length := by
  induction bytes using List.reverseRecOn with
  | nil => simp [ofBigEndian]
  | append_singleton bytes byte ih =>
    have hbyte := byte.toNat_lt
    rw [ofBigEndian_append, List.length_append, List.length_singleton, Nat.pow_succ]
    omega

/-- Every byte string of the width is a number written with it. -/
lemma bigEndian_ofBigEndian (bytes : Bytes) :
    bigEndian bytes.length (ofBigEndian bytes) = bytes := by
  induction bytes using List.reverseRecOn with
  | nil => rfl
  | append_singleton bytes byte ih =>
    have hbyte := byte.toNat_lt
    have hdiv : (ofBigEndian bytes * 256 + byte.toNat) / 256 = ofBigEndian bytes := by omega
    have hmod : UInt8.ofNat (ofBigEndian bytes * 256 + byte.toNat) = byte := by
      apply UInt8.toNat_inj.mp
      rw [UInt8.toNat_ofNat']
      omega
    rw [ofBigEndian_append, List.length_append, List.length_singleton, bigEndian_succ, hdiv, ih,
      hmod]

/-! ## Byte order -/

/-- A common beginning does not matter in the order. -/
lemma compare_append_left (stem a b : Bytes) : compare (stem ++ a) (stem ++ b) = compare a b := by
  induction stem with
  | nil => rfl
  | cons byte stem ih => simp [List.compare_cons_cons, ih]

/-- The last bytes decide between beginnings that are equal. -/
lemma compare_append_right {a b : Bytes} (h : a.length = b.length) (x y : UInt8) :
    compare (a ++ [x]) (b ++ [y]) = (compare a b).then (compare x y) := by
  induction a generalizing b with
  | nil =>
    obtain rfl : b = [] := List.eq_nil_of_length_eq_zero h.symm
    simp [List.compare_cons_cons]
  | cons byte a ih =>
    cases b with
    | nil => simp at h
    | cons byte' b =>
      have hlen : a.length = b.length := by simpa using h
      rw [List.cons_append, List.cons_append, List.compare_cons_cons, List.compare_cons_cons,
        ih hlen, Ordering.then_assoc]

/-- **Byte order is numeric order** for numbers that fit into the width.

**Proof sketch.** Induction on the width: the higher bytes decide, and between equal ones the last
byte does. -/
theorem compare_bigEndian (width : Nat) {a b : Nat} (ha : a < 256 ^ width) (hb : b < 256 ^ width) :
    compare (bigEndian width a) (bigEndian width b) = compare a b := by
  induction width generalizing a b with
  | zero =>
    obtain rfl : a = 0 := by simpa using ha
    obtain rfl : b = 0 := by simpa using hb
    rfl
  | succ width ih =>
    rw [Nat.pow_succ] at ha hb
    rw [bigEndian_succ, bigEndian_succ, compare_append_right (by simp),
      ih (by omega) (by omega)]
    have hbyte : compare (UInt8.ofNat a) (UInt8.ofNat b) = compare (a % 256) (b % 256) := by
      simp only [compare, compareOfLessAndEq, UInt8.lt_iff_toNat_lt, ← UInt8.toNat_inj,
        UInt8.toNat_ofNat']
    rw [hbyte]
    simp only [compare, compareOfLessAndEq]
    split_ifs <;> first | rfl | omega

/-- Byte order is the lexicographic order of the bytes. -/
lemma compare_eq_lt_iff {a b : Bytes} : compare a b = .lt ↔ a < b := by
  induction a generalizing b with
  | nil =>
    cases b with
    | nil => simp
    | cons byte b => simp
  | cons byte a ih =>
    cases b with
    | nil => simp
    | cons byte' b =>
      rw [List.compare_cons_cons, List.cons_lt_cons_iff, ← ih, Ordering.then_eq_lt,
        Std.compare_eq_lt, Std.LawfulEqOrd.compare_eq_iff_eq]

/-! ## Stems -/

/-- The test for a stem decides whether it is a prefix. -/
lemma startsWith_iff_prefix {bytes stem : Bytes} :
    bytes.startsWith stem = true ↔ stem <+: bytes := by
  rw [startsWith_iff]
  exact exists_congr fun _ => eq_comm

/-- What starts with a stem does not come before it. -/
lemma not_lt_of_prefix {stem bytes : Bytes} (h : stem <+: bytes) : ¬ bytes < stem := by
  obtain ⟨rest, rfl⟩ := h
  induction stem with
  | nil => exact List.not_lt_nil _
  | cons byte stem ih => simpa [List.cons_lt_cons_iff] using ih

/-- **What starts alike lies together**: behind the first byte string from the stem on that does not
start with the stem, none does.

**Proof sketch.** Induction on the stem. Where the first bytes differ, the smaller one is already
behind the stem. -/
theorem not_prefix_of_lt {stem a b : Bytes} (hstem : ¬ a < stem) (ha : ¬ stem <+: a) (hab : a < b) :
    ¬ stem <+: b := by
  induction stem generalizing a b with
  | nil => exact absurd (List.nil_prefix) ha
  | cons s stem ih =>
    intro hb
    obtain ⟨rest, rfl⟩ := hb
    cases a with
    | nil => exact hstem (List.nil_lt_cons _ _)
    | cons x a =>
      rw [List.cons_append, List.cons_lt_cons_iff] at hab
      rw [List.cons_lt_cons_iff] at hstem
      rcases hab with hlt | ⟨rfl, hlt⟩
      · exact hstem (.inl hlt)
      · refine ih (fun h => hstem (.inr ⟨rfl, h⟩)) (fun h => ha ?_) hlt ⟨rest, rfl⟩
        exact List.cons_prefix_cons.mpr ⟨rfl, h⟩

/-! ## Texts -/

/-- A text is read back from its bytes. -/
theorem toText?_ofText (text : String) : toText? (ofText text) = some text := by
  have hbytes : (⟨(ofText text).toArray⟩ : ByteArray) = text.toByteArray := by
    simp [ofText, String.toUTF8]
  rw [toText?, hbytes, String.fromUTF8?, dif_pos text.isValidUTF8]
  rfl

/-- Different texts have different bytes. -/
lemma ofText_injective : Function.Injective ofText := by
  intro a b h
  have hread := toText?_ofText a
  rw [h, toText?_ofText] at hread
  exact (Option.some.inj hread).symm

/-- A text has as many bytes as its letters take. -/
lemma length_ofText (text : String) : (ofText text).length = text.utf8ByteSize := by
  simp [ofText, String.toUTF8]

/-- A byte below 128 of the form of a character is the character.

**Proof sketch.** The four forms one by one: only the form of one byte has a byte below 128. -/
lemma toNat_of_mem_utf8EncodeChar {c : Char} {byte : UInt8}
    (hmem : byte ∈ String.utf8EncodeChar c) (hlt : byte < 0x80) : byte.toNat = c.toNat := by
  simp only [UInt8.lt_iff_toNat_lt] at hlt
  unfold String.utf8EncodeChar at hmem
  dsimp only at hmem
  split at hmem
  · obtain rfl := List.mem_singleton.mp hmem
    simp only [Char.toNat, UInt8.toNat_ofNat'] at *
    omega
  -- The bytes of a longer form are all at least 128.
  all_goals
    exfalso
    split at hmem
    · simp only [List.mem_cons, List.not_mem_nil, or_false] at hmem
      rcases hmem with rfl | rfl <;> simp at hlt <;> omega
    · split at hmem
      · simp only [List.mem_cons, List.not_mem_nil, or_false] at hmem
        rcases hmem with rfl | rfl | rfl <;> simp at hlt <;> omega
      · simp only [List.mem_cons, List.not_mem_nil, or_false] at hmem
        rcases hmem with rfl | rfl | rfl | rfl <;> simp at hlt <;> omega

/-- A text without a slash has no byte of a slash. -/
theorem slash_notMem_ofText {text : String} (h : '/' ∉ text.toList) :
    (0x2f : UInt8) ∉ ofText text := by
  intro hmem
  rw [ofText, String.toUTF8, ← String.utf8Encode_toList, List.utf8Encode,
    List.data_toByteArray, List.toList_toArray] at hmem
  obtain ⟨c, hc, hbyte⟩ := List.mem_flatMap.mp hmem
  have hnat := toNat_of_mem_utf8EncodeChar hbyte (by decide)
  obtain rfl : c = '/' := Char.ext (UInt32.toNat_inj.mp hnat.symm)
  exact h hc

end Proximity.Bytes

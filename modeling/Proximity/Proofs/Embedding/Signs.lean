import Proximity.Proofs.Embedding
import Proximity.Proofs.Single.Order

set_option relaxedAutoImplicit false
set_option autoImplicit false

/-!
# Vectors reduced to their signs

A single precision vector that is stored as bits keeps of each component whether it is below zero.
The bits stand in the order of the components, the highest of each byte first, and the bits behind
the last component are not set. The distance of two such vectors is the number of places at which
exactly one of their components is below zero. It is counted in 32 bits, which is enough for vectors
of fewer than `2 ^ 32` components.

## Main definitions

* `Proximity.Encoding.HoldsSigns` — the bytes hold the signs of some components.
* `Proximity.Single.differingSigns` — the places at which exactly one component is below zero.

## Main results

* `Proximity.Single.zero_le_iff` — the test for the numbers that are not below zero.
* `Proximity.Single.listOfBytes_bytesOfList` — components are read as they were written.
* `Proximity.Encoding.testBit_packBits` — which bit of which byte stands for a component.
* `Proximity.Distance.differingBits_packBits` — packed bits differ where the lists do.
* `Proximity.Distance.differingBits_flatten_replicate` — byte strings that repeat themselves.
* `Proximity.distance_signs` — the stored forms of two vectors and their distance.
* `Proximity.not_forall_distance_signs` — how many bits can be counted.
-/

namespace Proximity

/-! ## Numbers that are not below zero -/

namespace Packing

open Float.Model (Format UnpackedFloat)
open Float.Model.UnpackedFloat

/-- A number has at most one sign. -/
lemma Signed.unique {s s' : Sign} {f : UnpackedFloat} (h : Signed s f) (h' : Signed s' f) :
    s = s' := by
  cases h <;> cases h' <;> rfl

/-- The sign is positive if its bit is not set. -/
lemma ofBitVec_eq_positive_iff (v : BitVec 1) : Sign.ofBitVec v = .positive ↔ v.toNat = 0 := by
  obtain rfl | rfl : v = 0#1 ∨ v = 1#1 := by
    revert v
    decide
  · exact iff_of_true rfl rfl
  · exact iff_of_false nofun nofun

/-- What is a number has the positive sign exactly if its highest bit is not set. -/
lemma signed_positive_unpack_iff {b : BitVec Format.binary32.numBits}
    (h : unpack .binary32 b ≠ .notANumber) :
    Signed .positive (unpack .binary32 b) ↔ b.toNat / 2 ^ 31 % 2 = 0 := by
  have hsigned : Signed (Sign.ofBitVec (unpackSign b)) (unpack .binary32 b) := by
    have hunpack := unpack_packComponents (Sign.ofBitVec (unpackSign b)) (unpackExponent b)
      (unpackMantissa b)
    rw [packComponents_unpack] at hunpack
    rw [hunpack] at h ⊢
    split_ifs at h ⊢
    · exact .infinity
    · exact absurd rfl h
    · exact .zero
    · exact .finite ..
    · exact .finite ..
  rw [← toNat_unpackSign, ← ofBitVec_eq_positive_iff]
  exact ⟨hsigned.unique, fun heq => heq ▸ hsigned⟩

end Packing

namespace Single

variable {x : Single}

/-- A number is positive if it is not negative. -/
lemma signed_positive_unpacked_iff (h : ¬x.isNaN = true) :
    Packing.Signed .positive x.unpacked ↔ x.isNegative = false := by
  have hlt := x.bits.toNat_lt
  have hbit := Packing.signed_positive_unpack_iff (b := x.bits.toBitVec) (mt isNaN_iff.mpr h)
  refine hbit.trans ?_
  rw [← Bool.not_eq_true, isNegative_iff]
  change x.bits.toNat / 2 ^ 31 % 2 = 0 ↔ _
  omega

/-- The numbers that are not below zero, by their patterns.

**Proof sketch.** By the kinds of numbers that there are. Among those with the sign bit only the
negative zero is not below zero. -/
lemma nonneg_iff : x.Nonneg ↔ ¬x.isNaN = true ∧ 0 ≤ x.value := by
  constructor
  · intro h
    refine ⟨h.not_isNaN, h.elim (fun hzero => ?_) fun hpositive => ?_⟩
    · have hequal := equal_zero_iff.mpr ⟨_, hzero⟩
      rw [equal, Bool.and_eq_true, beq_iff_eq] at hequal
      exact hequal.2.ge
    · rw [signed_positive_unpacked_iff h.not_isNaN] at hpositive
      simp [value, hpositive]
  · rintro ⟨hnumber, hvalue⟩
    by_cases hnegative : x.isNegative = true
    · -- the only such number is the negative zero
      rw [value, if_pos hnegative] at hvalue
      rcases x.unpacked_cases with ⟨h, _⟩ | ⟨h, _⟩ | ⟨_, s, hzero⟩ | ⟨h, _⟩
      · omega
      · omega
      · cases s with
        | positive => exact .inr (hzero ▸ .zero)
        | negative => exact .inl hzero
      · omega
    · exact .inr ((signed_positive_unpacked_iff hnumber).mpr (Bool.eq_false_iff.mpr hnegative))

/-- **The test for the numbers that are not below zero**, the negative zero among them. -/
theorem zero_le_iff : zero.le x = true ↔ x.Nonneg := by
  have hvalue : zero.value = 0 := rfl
  have hnumber : zero.isNaN = false := rfl
  rw [nonneg_iff, le, hvalue, hnumber]
  simp

/-- Whether a number is not below zero can be read off its bits. -/
instance : DecidablePred Nonneg := fun _ => decidable_of_iff _ zero_le_iff

/-- The number of places at which exactly one of two components is below zero. -/
def differingSigns (a b : List Single) : Nat :=
  (a.zip b).countP fun pair => decide ¬(pair.1.Nonneg ↔ pair.2.Nonneg)

/-! ## Bytes of components -/

/-- The bits of a number from its four bytes. -/
lemma toNat_ofBytes (b₀ b₁ b₂ b₃ : UInt8) :
    (ofBytes b₀ b₁ b₂ b₃).bits.toNat =
      b₀.toNat + b₁.toNat * 2 ^ 8 + b₂.toNat * 2 ^ 16 + b₃.toNat * 2 ^ 24 := by
  have h₀ := b₀.toNat_lt
  have h₁ := b₁.toNat_lt
  have h₂ := b₂.toNat_lt
  have h₃ := b₃.toNat_lt
  have hor {low : Nat} (high : Nat) {i : Nat} (hlow : low < 2 ^ i) :
      low ||| high * 2 ^ i = low + high * 2 ^ i := by
    rw [← Nat.shiftLeft_eq, Nat.or_comm, ← Nat.shiftLeft_add_eq_or_of_lt hlow, Nat.add_comm]
  simp only [ofBytes, UInt32.toNat_or, UInt32.toNat_shiftLeft, UInt8.toNat_toUInt32]
  change _ ||| _ <<< 8 % 2 ^ 32 ||| _ <<< 16 % 2 ^ 32 ||| _ <<< 24 % 2 ^ 32 = _
  rw [Nat.shiftLeft_eq, Nat.shiftLeft_eq, Nat.shiftLeft_eq, Nat.mod_eq_of_lt (by omega),
    Nat.mod_eq_of_lt (by omega), Nat.mod_eq_of_lt (by omega), hor _ h₀, hor b₂.toNat (by omega),
    hor b₃.toNat (by omega)]

/-- A number is put together again from its four bytes. -/
lemma ofBytes_toBytes (x : Single) :
    ofBytes (UInt8.ofNat x.bits.toNat) (UInt8.ofNat (x.bits.toNat / 256))
      (UInt8.ofNat (x.bits.toNat / 256 / 256)) (UInt8.ofNat (x.bits.toNat / 256 / 256 / 256)) =
        x := by
  have hlt := x.bits.toNat_lt
  refine congrArg Single.mk (UInt32.toNat_inj.mp ?_)
  change (ofBytes _ _ _ _).bits.toNat = _
  simp only [toNat_ofBytes, UInt8.toNat_ofNat']
  omega

/-- **Components are read as they were written.**

**Proof sketch.** Induction on the components, with what has been read so far. -/
theorem listOfBytes_bytesOfList (components : List Single) :
    listOfBytes (bytesOfList components) = components := by
  have hread (read : List Single) :
      readAll read (bytesOfList components) = read.reverse ++ components := by
    induction components generalizing read with
    | nil => simp [bytesOfList, readAll]
    | cons x components ih =>
      have hbytes : bytesOfList (x :: components) = toBytes x ++ bytesOfList components := rfl
      rw [hbytes]
      simp only [toBytes, Bytes.littleEndian, List.cons_append, List.nil_append, readAll]
      rw [ofBytes_toBytes, ih, List.reverse_cons, List.append_assoc]
      rfl
  exact hread []

/-- A number takes four bytes. -/
lemma length_bytesOfList (components : List Single) :
    (bytesOfList components).length = 4 * components.length := by
  have hfour : ∀ x ∈ components, (toBytes x).length = 4 := fun x _ =>
    Bytes.length_littleEndian 4 x.bits.toNat
  rw [bytesOfList, List.length_flatMap, List.map_congr_left hfour, List.map_const',
    List.sum_replicate, smul_eq_mul, Nat.mul_comm]

end Single

/-! ## Bits in bytes -/

namespace Encoding

/-- A bit of a byte is set if one of the marks sets it. -/
lemma testBit_foldl_or (marks : List (Bool × UInt8)) (byte : UInt8) (j : Nat) :
    (marks.foldl (fun byte bit => if bit.1 then byte ||| bit.2 else byte) byte).toNat.testBit j =
      (byte.toNat.testBit j || marks.any fun bit => bit.1 && bit.2.toNat.testBit j) := by
  induction marks generalizing byte with
  | nil => simp
  | cons mark marks ih =>
    rw [List.foldl_cons, ih, List.any_cons, ← Bool.or_assoc]
    congr 1
    cases mark.1
    · simp
    · simp [UInt8.toNat_or, Nat.testBit_or]

/-- The bits of a byte stand from the highest down.

**Proof sketch.** Each of the eight masks has one bit, at its own place, so that a bit of the byte
comes from the mask at its place only. -/
lemma testBit_byteOfBits (bits : List Bool) {j : Nat} (hj : j < 8) :
    (byteOfBits bits).toNat.testBit (7 - j) = bits.getD j false := by
  -- each of the masks has one bit, at its own place
  have hmask : ∀ i j : Fin 8,
      ([0x80, 0x40, 0x20, 0x10, 0x08, 0x04, 0x02, 0x01] : List UInt8)[i].toNat.testBit (7 - j) =
        decide (i = j) := by
    decide
  rw [byteOfBits, testBit_foldl_or, UInt8.toNat_zero, Nat.zero_testBit, Bool.false_or,
    Bool.eq_iff_iff, List.any_eq_true]
  constructor
  · rintro ⟨bit, hmem, hset⟩
    obtain ⟨i, hi, rfl⟩ := List.mem_iff_getElem.mp hmem
    have hlt : i < bits.length ∧ i < 8 := by simpa using hi
    rw [List.getElem_zip, Bool.and_eq_true] at hset
    have hplace := (hmask ⟨i, hlt.2⟩ ⟨j, hj⟩).symm.trans hset.2
    obtain rfl : i = j := by simpa using hplace
    simpa [List.getD, hlt.1] using hset.1
  · intro hbit
    have hlt : j < bits.length := by
      by_contra hge
      simp [List.getD, Nat.le_of_not_lt hge] at hbit
    refine ⟨_, List.getElem_mem (n := j) (by simpa using ⟨hlt, hj⟩), ?_⟩
    rw [List.getElem_zip, Bool.and_eq_true]
    exact ⟨by simpa [List.getD, hlt] using hbit, (hmask ⟨j, hj⟩ ⟨j, hj⟩).trans (by simp)⟩

/-- **Which bit of which byte stands for a component**; behind the last one no bit is set.

**Proof sketch.** Induction along the packing, eight bits at a time. -/
theorem testBit_packBits (bits : List Bool) (i : Nat) :
    ((packBits bits).getD (i / 8) 0).toNat.testBit (7 - i % 8) = bits.getD i false := by
  fun_induction packBits bits generalizing i with
  | case1 => simp
  | case2 bit bits ih =>
    by_cases hi : i < 8
    · have htake : bit :: bits.take 7 = (bit :: bits).take 8 := rfl
      rw [Nat.div_eq_of_lt hi, Nat.mod_eq_of_lt hi, List.getD_cons_zero, testBit_byteOfBits _ hi,
        htake, List.getD, List.getD, List.getElem?_take_of_lt hi]
    · obtain ⟨k, rfl⟩ := Nat.exists_eq_add_of_le' (Nat.le_of_not_lt hi)
      rw [Nat.add_div_right _ (by decide), Nat.add_mod_right, List.getD_cons_succ, ih]
      simp [List.getD, Nat.add_comm]

/-- **The bytes hold the signs of some components**: as many bytes as the bits take, for each
component a bit that is set if it is not below zero, and no other bit. -/
structure HoldsSigns (components : List Single) (stored : Bytes) : Prop where
  length : stored.length = (components.length + 7) / 8
  signs : ∀ (i : Nat) (hi : i < components.length), ∃ byte, stored[i / 8]? = some byte ∧
    (byte.toNat.testBit (7 - i % 8) = true ↔ components[i].Nonneg)
  padding : ∀ i, components.length ≤ i → i < 8 * stored.length →
    ∃ byte, stored[i / 8]? = some byte ∧ byte.toNat.testBit (7 - i % 8) = false

/-- A reduction to signs holds them.

**Proof sketch.** The bits are those of the packed signs; behind the components the list of signs
has ended. -/
lemma holdsSigns_toBinary (components : List Single) :
    HoldsSigns components (toBinary components) := by
  have hlength : (toBinary components).length = (components.length + 7) / 8 := by
    rw [toBinary, length_packBits, List.length_map]
  have hbyte {i : Nat} (hi : i < 8 * (toBinary components).length) :
      ∃ byte, (toBinary components)[i / 8]? = some byte ∧
        byte.toNat.testBit (7 - i % 8) =
          (components.map fun x => Single.zero.le x).getD i false := by
    have hlt : i / 8 < (toBinary components).length := Nat.div_lt_of_lt_mul hi
    refine ⟨_, List.getElem?_eq_getElem hlt, ?_⟩
    rw [← testBit_packBits, ← toBinary, List.getD_eq_getElem _ _ hlt]
  refine ⟨hlength, fun i hi => ?_, fun i hle hi => ?_⟩
  · obtain ⟨byte, hget, hbit⟩ := hbyte (i := i) (by omega)
    refine ⟨byte, hget, ?_⟩
    rw [hbit, ← Single.zero_le_iff]
    simp [List.getD, hi]
  · obtain ⟨byte, hget, hbit⟩ := hbyte hi
    refine ⟨byte, hget, hbit.trans ?_⟩
    simp [List.getD, hle]

end Encoding

/-! ## Differing bits -/

namespace Distance

open Encoding (byteOfBits packBits testBit_byteOfBits)

/-- The bits of a byte are counted from the highest one down. -/
lemma countBits_eq (byte : UInt8) :
    countBits byte = (List.range 8).countP fun j => byte.toNat.testBit (7 - j) := by
  have hreverse : (List.range 8).reverse = (List.range 8).map (7 - ·) := by decide
  rw [countBits, ← List.countP_reverse, hreverse, List.countP_map]
  rfl

/-- Behind the end of two lists there are no more places in which they differ. -/
lemma countP_range_getD {xs ys : List Bool} (hlength : xs.length = ys.length) {n : Nat}
    (hn : xs.length ≤ n) :
    ((List.range n).countP fun j => xs.getD j false != ys.getD j false) =
      (xs.zip ys).countP fun pair => pair.1 != pair.2 := by
  induction xs generalizing ys n with
  | nil =>
    obtain rfl := List.length_eq_zero_iff.mp hlength.symm
    simp
  | cons x xs ih =>
    obtain ⟨y, ys, rfl⟩ := List.exists_cons_of_length_eq_add_one hlength.symm
    obtain ⟨n, rfl⟩ := Nat.exists_eq_succ_of_ne_zero (Nat.ne_zero_of_lt hn)
    rw [List.range_succ_eq_map, List.countP_cons, List.countP_map, List.zip_cons_cons,
      List.countP_cons, ← ih (Nat.succ.inj hlength) (Nat.le_of_succ_le_succ hn)]
    rfl

/-- Two bytes differ where their bits do. -/
lemma countBits_byteOfBits {xs ys : List Bool} (hlength : xs.length = ys.length)
    (hle : xs.length ≤ 8) :
    countBits (byteOfBits xs ^^^ byteOfBits ys) =
      (xs.zip ys).countP fun pair => pair.1 != pair.2 := by
  rw [countBits_eq, ← countP_range_getD hlength hle]
  refine List.countP_congr fun j hj => ?_
  rw [UInt8.toNat_xor, Nat.testBit_xor, testBit_byteOfBits _ (List.mem_range.mp hj),
    testBit_byteOfBits _ (List.mem_range.mp hj)]

/-- Numbers that are added up in 32 bits have the sum that they have, up to a multiple of `2 ^
32`. -/
lemma foldl_add_ofNat {α : Type} (count : α → Nat) (list : List α) (seen : Nat) :
    list.foldl (fun sum x => sum + UInt32.ofNat (count x)) (UInt32.ofNat seen) =
      UInt32.ofNat (seen + (list.map count).sum) := by
  induction list generalizing seen with
  | nil => rfl
  | cons x list ih =>
    rw [List.foldl_cons, ← UInt32.ofNat_add, ih, List.map_cons, List.sum_cons, Nat.add_assoc]

/-- The bits in which two byte strings differ are those in which their bytes do. -/
lemma differingBits_eq_sum (a b : Bytes) :
    differingBits a b =
      UInt32.ofNat ((a.zip b).map fun pair => countBits (pair.1 ^^^ pair.2)).sum := by
  have hsum := foldl_add_ofNat (fun pair : UInt8 × UInt8 => countBits (pair.1 ^^^ pair.2))
    (a.zip b) 0
  rwa [Nat.zero_add] at hsum

/-- Packed bytes differ in as many bits as the lists do.

**Proof sketch.** Induction on the packing: each byte takes the first eight bits of both lists. -/
lemma sum_countBits_packBits {xs ys : List Bool} (hlength : xs.length = ys.length) :
    (((packBits xs).zip (packBits ys)).map fun pair => countBits (pair.1 ^^^ pair.2)).sum =
      (xs.zip ys).countP fun pair => pair.1 != pair.2 := by
  fun_induction packBits xs generalizing ys with
  | case1 =>
    obtain rfl := List.length_eq_zero_iff.mp hlength.symm
    rfl
  | case2 x xs ih =>
    obtain ⟨y, ys, rfl⟩ := List.exists_cons_of_length_eq_add_one hlength.symm
    have hrest : xs.length = ys.length := Nat.succ.inj hlength
    have hsplit : (x :: xs).zip (y :: ys) =
        (x :: xs.take 7).zip (y :: ys.take 7) ++ (xs.drop 7).zip (ys.drop 7) := by
      rw [← List.zip_append (by simp [hrest])]
      simp
    have hdrop : (xs.drop 7).length = (ys.drop 7).length := by simp [hrest]
    rw [packBits, List.zip_cons_cons, List.map_cons, List.sum_cons, ih hdrop,
      countBits_byteOfBits (by simp [hrest]) (by simp), hsplit, List.countP_append]

/-- **Packed bits differ where the lists do**, as far as 32 bits can count them. -/
theorem differingBits_packBits {xs ys : List Bool} (hlength : xs.length = ys.length) :
    differingBits (packBits xs) (packBits ys) =
      UInt32.ofNat ((xs.zip ys).countP fun pair => pair.1 != pair.2) := by
  rw [differingBits_eq_sum, sum_countBits_packBits hlength]

/-- **Byte strings that repeat themselves** differ in as many bits as what they repeat, so many
times.

**Proof sketch.** The sum over all bytes is a sum of equal parts, and 32 bits keep sums and
products. -/
theorem differingBits_flatten_replicate (times : Nat) {a b : Bytes}
    (hlength : a.length = b.length) :
    differingBits (List.replicate times a).flatten (List.replicate times b).flatten =
      UInt32.ofNat times * differingBits a b := by
  have hsum : ((((List.replicate times a).flatten.zip (List.replicate times b).flatten)).map
      fun pair => countBits (pair.1 ^^^ pair.2)).sum =
        times * ((a.zip b).map fun pair => countBits (pair.1 ^^^ pair.2)).sum := by
    induction times with
    | zero => simp
    | succ times ih =>
      rw [List.replicate_succ, List.replicate_succ, List.flatten_cons, List.flatten_cons,
        List.zip_append hlength, List.map_append, List.sum_append, ih, Nat.succ_mul, Nat.add_comm]
  rw [differingBits_eq_sum, differingBits_eq_sum, hsum, UInt32.ofNat_mul]

end Distance

/-- The stored form of a vector of finite components is its reduction to signs. -/
lemma encodeVector_signs {components : List Single} (hsome : components ≠ [])
    (hfinite : ∀ x ∈ components, x.isFinite = true) :
    encodeVector .single .binary (Single.bytesOfList components) =
      .ok (Encoding.toBinary components) := by
  have hlength := Single.length_bytesOfList components
  have hpos := List.length_pos_iff.mpr hsome
  have hvector : Precision.single.IsVector (Single.bytesOfList components) := by
    refine ⟨List.length_pos_iff.mp (by omega), by omega, ?_⟩
    rwa [Single.listOfBytes_bytesOfList]
  rw [encodeVector, Encoding.check_eq_ok_iff.mpr hvector, Except.ok_bind,
    Single.listOfBytes_bytesOfList]
  rfl

/-- The bits of two reductions differ where the signs do. -/
lemma differingBits_toBinary {a b : List Single} (hlength : a.length = b.length) :
    Distance.differingBits (Encoding.toBinary a) (Encoding.toBinary b) =
      UInt32.ofNat (Single.differingSigns a b) := by
  rw [Encoding.toBinary, Encoding.toBinary,
    Distance.differingBits_packBits (by simpa using hlength), List.zip_map, List.countP_map]
  refine congrArg UInt32.ofNat (List.countP_congr fun pair _ => ?_)
  rw [decide_eq_true_eq, ← Single.zero_le_iff, ← Single.zero_le_iff, ← Bool.eq_iff_iff]
  exact bne_iff_ne

/-- There are no more places at which the signs differ than components. -/
lemma Single.differingSigns_le (a b : List Single) : differingSigns a b ≤ a.length := by
  refine List.countP_le_length.trans ?_
  rw [List.length_zip]
  exact Nat.min_le_left ..

/-- **Vectors reduced to their signs.** The stored forms of two vectors of finite components hold
their signs. The bits in which they differ are counted in 32 bits: the count is the number of places
at which exactly one of the components is below zero as long as this number is below `2 ^ 32`, so in
particular if there are fewer components, and otherwise what is left of it. By either metric the
distance is the count.

**Proof sketch.** The bytes that stand for the components hold their signs. The differing bits of
two bytes are those of the signs in them, and the sum over the bytes is taken in 32 bits. -/
theorem distance_signs {a b : List Single} (hsome : a ≠ []) (hlength : a.length = b.length)
    (hfinite : ∀ x ∈ a ++ b, x.isFinite = true) :
    ∃ storedA storedB,
      encodeVector .single .binary (Single.bytesOfList a) = .ok storedA ∧
      encodeVector .single .binary (Single.bytesOfList b) = .ok storedB ∧
      Encoding.HoldsSigns a storedA ∧ Encoding.HoldsSigns b storedB ∧
      (Distance.differingBits storedA storedB).toNat = Single.differingSigns a b % 2 ^ 32 ∧
      ((Distance.differingBits storedA storedB).toNat = Single.differingSigns a b ↔
        Single.differingSigns a b < 2 ^ 32) ∧
      Single.differingSigns a b ≤ a.length ∧
      ∀ metric, distance .binary metric storedA storedB =
        .ofNat (Single.differingSigns a b % 2 ^ 32) := by
  have hsomeB : b ≠ [] := List.length_pos_iff.mp (hlength ▸ List.length_pos_iff.mpr hsome)
  have hbits : (Distance.differingBits (Encoding.toBinary a) (Encoding.toBinary b)).toNat =
      Single.differingSigns a b % 2 ^ 32 := by
    rw [differingBits_toBinary hlength, UInt32.toNat_ofNat']
  refine ⟨Encoding.toBinary a, Encoding.toBinary b,
    encodeVector_signs hsome fun x hx => hfinite x (List.mem_append_left b hx),
    encodeVector_signs hsomeB fun x hx => hfinite x (List.mem_append_right a hx),
    Encoding.holdsSigns_toBinary a, Encoding.holdsSigns_toBinary b, hbits, ?_,
    Single.differingSigns_le a b, fun metric => ?_⟩
  · rw [hbits]
    exact Nat.mod_eq_iff_lt (by decide)
  · rw [distance, hbits]

/-- Nine components take two bytes; the negative zero is not below zero. -/
theorem exists_distance_signs_nine :
    ∃ storedA storedB,
      encodeVector .single .binary
        (Single.bytesOfList (.negativeZero :: List.replicate 8 .minusOne)) = .ok storedA ∧
      encodeVector .single .binary (Single.bytesOfList (List.replicate 9 .one)) = .ok storedB ∧
      storedA.length = 2 ∧ storedB.length = 2 ∧
      (Distance.differingBits storedA storedB).toNat = 8 := by
  obtain ⟨storedA, storedB, hA, hB, hsignsA, hsignsB, hbits, _⟩ := distance_signs
    (a := .negativeZero :: List.replicate 8 .minusOne) (b := List.replicate 9 .one)
    nofun rfl (by decide)
  exact ⟨storedA, storedB, hA, hB, hsignsA.length, hsignsB.length, hbits.trans (by decide)⟩

/-- Opposite vectors differ in all their signs. -/
lemma Single.differingSigns_opposite (count : Nat) :
    differingSigns (List.replicate count .one) (List.replicate count .minusOne) = count := by
  have hopposite : ¬(Single.one.Nonneg ↔ Single.minusOne.Nonneg) := by decide
  rw [differingSigns, List.zip_replicate', List.countP_replicate, if_pos (decide_eq_true hopposite)]

/-- **The bits of long vectors are not counted**: of two opposite vectors with `2 ^ 32` components
the stored forms differ in no bit, as far as 32 bits can tell.

**Proof sketch.** All of the `2 ^ 32` signs differ, and their number is nothing in 32 bits. -/
theorem not_forall_distance_signs : ¬∀ {a b : List Single} {storedA storedB : Bytes}, a ≠ [] →
    a.length = b.length → (∀ x ∈ a ++ b, x.isFinite = true) →
      encodeVector .single .binary (Single.bytesOfList a) = .ok storedA →
        encodeVector .single .binary (Single.bytesOfList b) = .ok storedB →
          (Distance.differingBits storedA storedB).toNat = Single.differingSigns a b := by
  intro hall
  obtain ⟨count, hcount⟩ : ∃ count, count = 2 ^ 32 := ⟨_, rfl⟩
  have hsome : ∀ x : Single, List.replicate count x ≠ [] := fun x hnil => by
    rw [List.replicate_eq_nil_iff, hcount] at hnil
    exact absurd hnil (by decide)
  have hfinite : ∀ x ∈ List.replicate count Single.one ++ List.replicate count .minusOne,
      x.isFinite = true := fun x hx => by
    rcases List.mem_append.mp hx with hx | hx
    · rw [List.eq_of_mem_replicate hx]
      decide
    · rw [List.eq_of_mem_replicate hx]
      decide
  have hlength : (List.replicate count Single.one).length =
      (List.replicate count Single.minusOne).length := by
    rw [List.length_replicate, List.length_replicate]
  have hbits := hall (hsome _) hlength hfinite
    (encodeVector_signs (hsome _) fun x hx => hfinite x (List.mem_append_left _ hx))
    (encodeVector_signs (hsome _) fun x hx => hfinite x (List.mem_append_right _ hx))
  rw [differingBits_toBinary hlength, UInt32.toNat_ofNat', Single.differingSigns_opposite, hcount]
    at hbits
  exact absurd hbits (by decide)

end Proximity

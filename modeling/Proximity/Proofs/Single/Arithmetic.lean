import Proximity.Proofs.Single.Rounding
import Proximity.Single

set_option autoImplicit false
set_option relaxedAutoImplicit false

/-!
# Arithmetic without a number

When a sum, a difference, a product, a quotient or a root is not a number. Each operation unpacks
its operands, computes on their parts and packs the result, and whether a number comes out can be
read off the parts. Sums of squares and their roots are always numbers, and the product of two roots
is a divisor that is not zero.

## Main definitions

* `Proximity.Single.unpacked` — what a pattern stands for.
* `Proximity.Single.negativeInfinity` — the least number.
* `Proximity.Single.Nonneg` — the numbers that are not below zero.

## Main results

* `Proximity.Single.unpacked_operate` — an operation computes on the parts.
* `Proximity.Single.isNaN_div_iff` — when a quotient is not a number.
* `Proximity.Single.Nonneg.mul_sqrt` — the product of two roots.
* `Proximity.Single.unpacked_ofNat` — what integers are converted to.
-/

namespace Proximity.Single

open Float.Model (Format UnpackedFloat totalExponent)
open Packing Rounding

variable {x y : Single}

/-! ## What a pattern stands for -/

/-- What a pattern stands for, in the parts that core arithmetic computes on. -/
def unpacked (x : Single) : UnpackedFloat :=
  .unpack .binary32 x.bits.toBitVec

/-- The magnitude is in the lowest 31 bits. -/
lemma toNat_magnitude (x : Single) : x.magnitude.toNat = x.bits.toNat % 2 ^ 31 := by
  rw [magnitude, UInt32.toNat_and]
  exact Nat.and_two_pow_sub_one_eq_mod x.bits.toNat 31

/-- **What a pattern stands for**, by its magnitude. -/
theorem unpacked_cases (x : Single) :
    (0x7f800000 < x.magnitude.toNat ∧ x.unpacked = .notANumber) ∨
      (x.magnitude.toNat = 0x7f800000 ∧ ∃ s, x.unpacked = .infinity s) ∨
      (x.magnitude.toNat = 0 ∧ ∃ s, x.unpacked = .zero s) ∨
      (0 < x.magnitude.toNat ∧ x.magnitude.toNat < 0x7f800000 ∧
        ∃ s m e h, x.unpacked = .finite s m e h ∧ Canonical m e ∧ e ≤ 104) := by
  rw [toNat_magnitude]
  exact unpack_cases x.bits.toBitVec

/-- The test for what is not a number looks at the unpacked form. -/
lemma isNaN_iff : x.isNaN = true ↔ x.unpacked = .notANumber := by
  have hmagnitude : x.isNaN = true ↔ 0x7f800000 < x.magnitude.toNat := by
    rw [isNaN, decide_eq_true_eq, UInt32.lt_iff_toNat_lt]
    rfl
  rw [hmagnitude]
  rcases x.unpacked_cases with ⟨h, hx⟩ | ⟨h, s, hx⟩ | ⟨h, s, hx⟩ | ⟨_, h, s, m, e, hm, hx, _⟩ <;>
    rw [hx] <;> simp only [reduceCtorEq, iff_true, iff_false] <;> omega

/-- The test for finite numbers looks at the unpacked form. -/
lemma isFinite_iff : x.isFinite = true ↔ x.unpacked.isFinite = true := by
  have hmagnitude : x.isFinite = true ↔ x.magnitude.toNat < 0x7f800000 := by
    rw [isFinite, decide_eq_true_eq, UInt32.lt_iff_toNat_lt]
    rfl
  rw [hmagnitude]
  rcases x.unpacked_cases with ⟨h, hx⟩ | ⟨h, s, hx⟩ | ⟨h, s, hx⟩ | ⟨_, h, s, m, e, hm, hx, _⟩ <;>
    rw [hx] <;> simp only [UnpackedFloat.isFinite, Bool.false_eq_true, iff_true, iff_false] <;>
    omega

/-- Both zeros are equal to zero, and nothing else is. -/
lemma equal_zero_iff : x.equal .zero = true ↔ ∃ s, x.unpacked = .zero s := by
  have hvalue : x.value = 0 ↔ x.magnitude.toNat = 0 := by
    rw [value]
    split_ifs <;> omega
  have hequal : x.equal .zero = true ↔ ¬x.isNaN = true ∧ x.magnitude.toNat = 0 := by
    have hzero : Single.zero.isNaN = false ∧ Single.zero.value = 0 := by decide
    rw [equal, hzero.1, hzero.2, ← hvalue]
    simp
  rw [hequal, isNaN_iff]
  rcases x.unpacked_cases with ⟨h, hx⟩ | ⟨h, s, hx⟩ | ⟨h, s, hx⟩ | ⟨h, _, s, m, e, hm, hx, _⟩ <;>
    rw [hx] <;> simp [h, Nat.ne_of_gt]

/-- What is not a number is not one after it has been made quiet. -/
lemma isNaN_quiet (h : x.isNaN = true) : x.quiet.isNaN = true := by
  rw [isNaN, decide_eq_true_eq, UInt32.lt_iff_toNat_lt] at h ⊢
  refine Nat.lt_of_lt_of_le h ?_
  rw [magnitude, magnitude, quiet, UInt32.toNat_and, UInt32.toNat_and, UInt32.toNat_or,
    Nat.and_or_distrib_right]
  exact Nat.left_le_or

/-- The unpacked form of a number that has been computed. -/
lemma unpacked_ofFloat (r : Float32) : (ofFloat r).unpacked = r.toModel.unpack := by
  rw [ofFloat]
  split_ifs with hnan
  · have hunpack : r.toModel.unpack.isNaN = true := hnan
    cases hr : r.toModel.unpack with
    | notANumber => rfl
    | _ => simp [hr, UnpackedFloat.isNaN] at hunpack
  · rfl

/-- The unpacked form of the bits. -/
lemma unpack_ofBits (x : Single) : (Float32.ofBits x.bits).toModel.unpack = x.unpacked :=
  settled_unpack x.bits.toBitVec

/-- **An operation computes on the parts** of its operands, also where one of them is not a
number.

**Proof sketch.** If one of the operands is not a number the result is that operand, and otherwise
it is the operation of the machine. -/
theorem unpacked_operate {op : Float32 → Float32 → Float32}
    {core : UnpackedFloat → UnpackedFloat → UnpackedFloat}
    (hop : ∀ a b : Float32, (op a b).toModel = .pack (core a.toModel.unpack b.toModel.unpack))
    (hleft : ∀ g, core .notANumber g = .notANumber)
    (hright : ∀ f, core f .notANumber = .notANumber) (x y : Single) :
    (operate op x y).unpacked = settled (core x.unpacked y.unpacked) := by
  rw [operate]
  split_ifs with hx hy
  · rw [isNaN_iff.mp hx, hleft, isNaN_iff.mp (isNaN_quiet hx)]
    rfl
  · rw [isNaN_iff.mp hy, hright, isNaN_iff.mp (isNaN_quiet hy)]
    rfl
  · rw [unpacked_ofFloat, hop, unpack_ofBits, unpack_ofBits]
    rfl

/-- A sum is computed in the unpacked form. -/
lemma unpacked_add (x y : Single) :
    (x + y).unpacked = settled (.add .binary32 x.unpacked y.unpacked) :=
  unpacked_operate (fun _ _ => rfl) (fun _ => rfl) (fun f => by cases f <;> rfl) x y

/-- A difference is computed in the unpacked form. -/
lemma unpacked_sub (x y : Single) :
    (x - y).unpacked = settled (.sub .binary32 x.unpacked y.unpacked) :=
  unpacked_operate (fun _ _ => rfl) (fun _ => rfl) (fun f => by cases f <;> rfl) x y

/-- A product is computed in the unpacked form. -/
lemma unpacked_mul (x y : Single) :
    (x * y).unpacked = settled (.mul .binary32 x.unpacked y.unpacked) :=
  unpacked_operate (fun _ _ => rfl) (fun _ => rfl) (fun f => by cases f <;> rfl) x y

/-- A quotient is computed in the unpacked form. -/
lemma unpacked_div (x y : Single) :
    (x / y).unpacked = settled (.div .binary32 x.unpacked y.unpacked) :=
  unpacked_operate (fun _ _ => rfl) (fun _ => rfl) (fun f => by cases f <;> rfl) x y

/-- A root is computed in the unpacked form. -/
lemma unpacked_sqrt (x : Single) : x.sqrt.unpacked = settled (.sqrt .binary32 x.unpacked) := by
  rw [sqrt]
  split_ifs with hx
  · rw [isNaN_iff.mp hx, isNaN_iff.mp (isNaN_quiet hx)]
    rfl
  · rw [unpacked_ofFloat, ← unpack_ofBits]
    rfl

/-! ## Results that are not numbers -/

/-- A finite number is a number. -/
lemma not_isNaN_of_isFinite (h : x.isFinite = true) : ¬x.isNaN = true := by
  rw [isFinite_iff] at h
  rw [isNaN_iff]
  intro hx
  rw [hx] at h
  exact Bool.false_ne_true h

/-- A sum with what is not a number is not a number. -/
lemma isNaN_add (h : x.isNaN = true ∨ y.isNaN = true) : (x + y).isNaN = true := by
  rw [isNaN_iff, isNaN_iff] at h
  rw [isNaN_iff, unpacked_add, settled_eq_notANumber_iff]
  rcases h with h | h
  · rw [h]
    rfl
  · rw [h]
    cases x.unpacked <;> rfl

/-- The root of what is not a number is not a number. -/
lemma isNaN_sqrt (h : x.isNaN = true) : x.sqrt.isNaN = true := by
  rw [isNaN_iff] at h ⊢
  rw [unpacked_sqrt, h]
  rfl

/-- A finite number and another one have a sum if that one is a number. -/
lemma isNaN_add_iff (hx : x.isFinite = true) : (x + y).isNaN = true ↔ y.isNaN = true := by
  rw [isFinite_iff] at hx
  rw [isNaN_iff, isNaN_iff, unpacked_add, settled_eq_notANumber_iff]
  cases hf : x.unpacked <;> cases y.unpacked <;>
    simp_all [UnpackedFloat.add, UnpackedFloat.isFinite]
  split_ifs <;> simp

/-- A difference from a finite number is a number if what is taken away is. -/
lemma isNaN_sub_iff (hx : x.isFinite = true) : (x - y).isNaN = true ↔ y.isNaN = true := by
  rw [isFinite_iff] at hx
  rw [isNaN_iff, isNaN_iff, unpacked_sub, settled_eq_notANumber_iff]
  cases hf : x.unpacked <;> cases y.unpacked <;>
    simp_all [UnpackedFloat.sub, UnpackedFloat.isFinite]
  split_ifs <;> simp

/-- A square is a number if its root is. -/
lemma isNaN_mul_self_iff : (x * x).isNaN = true ↔ x.isNaN = true := by
  rw [isNaN_iff, isNaN_iff, unpacked_mul, settled_eq_notANumber_iff]
  cases x.unpacked <;> simp [UnpackedFloat.mul]

/-- **A quotient by a number that is not zero** is a number if the dividend is one and not both are
infinite. -/
theorem isNaN_div_iff (hy : ¬y.isNaN = true) (hzero : ¬y.equal .zero = true) :
    (x / y).isNaN = true ↔ x.isNaN = true ∨ ¬x.isFinite = true ∧ ¬y.isFinite = true := by
  rw [isNaN_iff] at hy
  rw [equal_zero_iff] at hzero
  rw [isNaN_iff, isNaN_iff, isFinite_iff, isFinite_iff, unpacked_div, settled_eq_notANumber_iff]
  cases x.unpacked <;> cases hg : y.unpacked <;>
    simp_all [UnpackedFloat.div, UnpackedFloat.isFinite]

/-- An inverse is a number if what it is taken of is. -/
lemma isNaN_one_div_iff : (one / y).isNaN = true ↔ y.isNaN = true := by
  have hone : one.unpacked = .finite .positive (2 ^ 23) (-23) (by decide) := rfl
  rw [isNaN_iff, isNaN_iff, unpacked_div, settled_eq_notANumber_iff, hone]
  cases y.unpacked <;> simp [UnpackedFloat.div]

/-! ## Order -/

/-- Clamping between numbers gives a number if it is done to a number. -/
lemma isNaN_clamp_iff {low high : Single} (hlow : ¬low.isNaN = true)
    (hhigh : ¬high.isNaN = true) : (x.clamp low high).isNaN = true ↔ x.isNaN = true := by
  rw [clamp]
  split_ifs with hless hgreater
  · simp_all [lt]
  · simp_all [lt]
  · rfl

/-- The negative infinity. -/
def negativeInfinity : Single := ⟨0xff800000⟩

/-- **Every number is at least the negative infinity.**

**Proof sketch.** No pattern of a number has a magnitude beyond that of the infinities. -/
theorem negativeInfinity_le_iff : negativeInfinity.le x = true ↔ ¬x.isNaN = true := by
  have hinfinity : negativeInfinity.isNaN = false ∧ negativeInfinity.value = -0x7f800000 := by
    decide
  have hvalue : ¬x.isNaN = true → -0x7f800000 ≤ x.value := by
    rw [isNaN, decide_eq_true_eq, UInt32.lt_iff_toNat_lt, value]
    have hgreatest : (0x7f800000 : UInt32).toNat = 0x7f800000 := rfl
    split_ifs <;> omega
  simp only [le, hinfinity, Bool.and_eq_true, Bool.not_eq_true', decide_eq_true_eq]
  simp only [Bool.not_eq_true] at hvalue ⊢
  exact ⟨fun h => h.1.2, fun h => ⟨⟨trivial, h⟩, hvalue h⟩⟩

/-! ## Numbers that are not below zero -/

/-- **A number that is not below zero.** -/
def Nonneg (x : Single) : Prop :=
  Packing.Nonneg x.unpacked

namespace Nonneg

/-- What is not below zero is a number. -/
lemma not_isNaN (h : x.Nonneg) : ¬x.isNaN = true := by
  rw [isNaN_iff]
  exact h.ne_notANumber

/-- Zero is not below zero. -/
lemma zero : Single.zero.Nonneg :=
  .inr .zero

/-- The negative zero is not below zero. -/
lemma negativeZero : Single.negativeZero.Nonneg :=
  .inl rfl

/-- A square is not below zero. -/
lemma mul_self (h : ¬x.isNaN = true) : (x * x).Nonneg := by
  rw [isNaN_iff] at h
  rw [Nonneg, unpacked_mul]
  exact (nonneg_mul_self h).packed

/-- A sum of numbers that are not below zero is not below zero. -/
lemma add (hx : x.Nonneg) (hy : y.Nonneg) : (x + y).Nonneg := by
  rw [Nonneg, unpacked_add]
  exact (nonneg_add hx hy).packed

/-- A root of a number that is not below zero is not below zero. -/
lemma sqrt (h : x.Nonneg) : x.sqrt.Nonneg := by
  rw [Nonneg, unpacked_sqrt]
  exact (nonneg_sqrt h).packed

/-- A number above zero has its highest digit at the lowest position or above.

**Proof sketch.** By what the pattern stands for. A finite number has a mantissa, and its highest
digit is not below the lowest position. -/
lemma exceeds (h : x.Nonneg) (hzero : ¬x.equal .zero = true) : Exceeds (-148) x.unpacked := by
  rw [equal_zero_iff] at hzero
  rw [Nonneg] at h
  rcases x.unpacked_cases with ⟨_, hx⟩ | ⟨_, s, hx⟩ | ⟨_, s, hx⟩ | ⟨_, _, s, m, e, hm, hx, hc, _⟩
  · exact absurd hx h.ne_notANumber
  · rw [hx] at h ⊢
    rcases h with h | h
    · exact absurd h nofun
    · cases h
      exact .infinity
  · exact absurd ⟨s, hx⟩ hzero
  · rw [hx] at h ⊢
    rcases h with h | h
    · exact absurd h nofun
    · cases h
      exact .finite hm hc hc.le_totalExponent

/-- **The product of two roots** of numbers above zero is a number and not zero. -/
theorem mul_sqrt (hx : x.Nonneg) (hy : y.Nonneg) (hxzero : ¬x.equal .zero = true)
    (hyzero : ¬y.equal .zero = true) :
    ¬(x.sqrt * y.sqrt).isNaN = true ∧ ¬(x.sqrt * y.sqrt).equal .zero = true := by
  have hproduct : Exceeds (-148) (x.sqrt * y.sqrt).unpacked := by
    rw [unpacked_mul, unpacked_sqrt, unpacked_sqrt]
    exact ((hx.exceeds hxzero).mul_sqrt (hy.exceeds hyzero)).packed
  rw [isNaN_iff, equal_zero_iff]
  exact ⟨hproduct.ne_notANumber, fun ⟨s, hs⟩ => hproduct.ne_zero s hs⟩

end Nonneg

/-! ## Integers -/

/-- An integer of machine size is finite, and it is not zero if the integer is not.

**Proof sketch.** An integer of 64 bits is below the greatest finite number, and rounding one that
is not zero does not make it zero. -/
theorem unpacked_ofNat (n : Nat) :
    (n % 2 ^ 64 = 0 ∧ (ofNat n).unpacked = .zero .positive) ∨
      ∃ m e h, (ofNat n).unpacked = .finite .positive m e h := by
  have hunpacked : (ofNat n).unpacked =
      settled (.normalize .binary32 (n % 2 ^ 64 : Nat) 0 .positive) := rfl
  rw [hunpacked]
  rcases Nat.eq_zero_or_pos (n % 2 ^ 64) with hzero | hpos
  · rw [hzero]
    exact .inl ⟨rfl, settled_zero .positive⟩
  · have hlog : (n % 2 ^ 64).log2 < 64 :=
      (Nat.log2_lt (Nat.ne_of_gt hpos)).mpr (Nat.mod_lt _ (by decide))
    have htotal : totalExponent (n % 2 ^ 64) 0 = (n % 2 ^ 64).log2 + 1 + 0 := rfl
    obtain ⟨m, e, h, hround, hc, _, hhigh⟩ := exists_round .positive hpos (e := 0) (by omega)
    have hcanonical := canonical_iff.mp hc
    have htotal' : totalExponent m e = m.log2 + 1 + e := rfl
    right
    rw [normalize_of_pos (by omega), Int.toNat_natCast, hround, settled_finite .positive h hc,
      if_pos (by omega)]
    exact ⟨m, e, h, rfl⟩

/-- Every natural number is rounded to a finite number. -/
lemma isFinite_ofNat (n : Nat) : (ofNat n).isFinite = true := by
  rw [isFinite_iff]
  rcases unpacked_ofNat n with ⟨_, h⟩ | ⟨m, e, hm, h⟩ <;> rw [h] <;> rfl

/-- A natural number is not rounded below zero. -/
lemma nonneg_ofNat (n : Nat) : (ofNat n).Nonneg := by
  rw [Nonneg]
  rcases unpacked_ofNat n with ⟨_, h⟩ | ⟨m, e, hm, h⟩ <;> rw [h]
  · exact .inr .zero
  · exact .inr (.finite ..)

/-- An integer that is not below zero is not rounded below zero. -/
lemma nonneg_ofInt {n : Int} (hn : 0 ≤ n) : (ofInt n).Nonneg := by
  cases n with
  | ofNat n => exact nonneg_ofNat n
  | negSucc n => exact absurd hn (by omega)

/-- A positive number of 64 bits is not rounded to zero. -/
lemma ofNat_ne_zero {n : Nat} (hpos : 0 < n) (hlt : n < 2 ^ 64) :
    ¬(ofNat n).equal .zero = true := by
  rw [equal_zero_iff]
  rintro ⟨s, hs⟩
  rcases unpacked_ofNat n with ⟨hzero, _⟩ | ⟨m, e, hm, h⟩
  · rw [Nat.mod_eq_of_lt hlt] at hzero
    omega
  · exact absurd (h.symm.trans hs) nofun

/-- Every integer is rounded to a finite number. -/
lemma isFinite_ofInt (n : Int) : (ofInt n).isFinite = true := by
  cases n with
  | ofNat n => exact isFinite_ofNat n
  | negSucc n =>
    have hmagnitude : (ofInt (.negSucc n)).magnitude = (ofNat (n + 1)).magnitude := by
      rw [← UInt32.toNat_inj, magnitude, magnitude, ofInt, UInt32.toNat_and, UInt32.toNat_and,
        UInt32.toNat_or, Nat.and_or_distrib_right]
      exact Nat.or_zero _
    have hfinite := isFinite_ofNat (n + 1)
    rw [isFinite] at hfinite ⊢
    rwa [hmagnitude]

end Proximity.Single

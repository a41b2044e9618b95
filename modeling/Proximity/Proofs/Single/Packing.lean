import Mathlib

set_option autoImplicit false
set_option relaxedAutoImplicit false

/-!
# Packed numbers

Core arithmetic computes on numbers that are taken apart into sign, mantissa and exponent, and packs
the results into patterns. A number that has been read from a pattern survives packing; a result
does if its mantissa has the length that the format has for its exponent and the exponent is not too
great. No result turns into something else than a number with the same sign.

## Main definitions

* `Proximity.Packing.settled` — what is left of a result when it has been packed.
* `Proximity.Packing.Canonical` — a mantissa of the right length.
* `Proximity.Packing.Signed` — a number with some sign.

## Main results

* `Proximity.Packing.unpack_cases` — what a pattern stands for, by its magnitude.
* `Proximity.Packing.settled_unpack` — what has been read from a pattern survives packing.
* `Proximity.Packing.settled_finite` — when a result survives packing.
* `Proximity.Packing.Signed.packed` — packing keeps the sign, and what is a number stays one.
-/

namespace Proximity.Packing

open Float.Model (Format UnpackedFloat totalExponent)
open Float.Model.UnpackedFloat

/-! ## Parts of a pattern -/

/-- The bits of a number from its three parts. -/
lemma toNat_packComponents (s : Sign) (e : BitVec 8) (m : BitVec 23) :
    (packComponents .binary32 s e m).toNat =
      s.toBitVec.toNat * 2 ^ 31 + e.toNat * 2 ^ 23 + m.toNat := by
  have happend : (s.toBitVec ++ e ++ m).toNat =
      (s.toBitVec.toNat <<< 8 + e.toNat) <<< 23 + m.toNat := by
    rw [BitVec.toNat_append, BitVec.toNat_append, Nat.shiftLeft_add_eq_or_of_lt e.isLt,
      Nat.shiftLeft_add_eq_or_of_lt m.isLt]
  refine happend.trans ?_
  rw [Nat.shiftLeft_eq, Nat.shiftLeft_eq]
  omega

variable (b : BitVec Format.binary32.numBits)

/-- The sign is the highest bit. -/
lemma toNat_unpackSign : (unpackSign b).toNat = b.toNat / 2 ^ 31 % 2 := by
  simp [unpackSign, Nat.shiftRight_eq_div_pow]

/-- The exponent is in the next eight bits. -/
lemma toNat_unpackExponent : (unpackExponent b).toNat = b.toNat / 2 ^ 23 % 2 ^ 8 := by
  simp [unpackExponent, Nat.shiftRight_eq_div_pow]

/-- The mantissa is in the lowest 23 bits. -/
lemma toNat_unpackMantissa : (unpackMantissa b).toNat = b.toNat % 2 ^ 23 := by
  simp [unpackMantissa]

/-- The sign is read back from the packed parts. -/
lemma ofBitVec_unpackSign (s : Sign) (e : BitVec 8) (m : BitVec 23) :
    Sign.ofBitVec (unpackSign (packComponents .binary32 s e m)) = s := by
  have h : unpackSign (packComponents .binary32 s e m) = s.toBitVec := by
    apply BitVec.eq_of_toNat_eq
    rw [toNat_unpackSign, toNat_packComponents]
    have hs := s.toBitVec.isLt
    have he := e.isLt
    have hm := m.isLt
    omega
  rw [h]
  cases s <;> rfl

/-- A pattern is put together from its parts. -/
lemma packComponents_unpack :
    packComponents .binary32 (Sign.ofBitVec (unpackSign b)) (unpackExponent b) (unpackMantissa b) =
      b := by
  have hsign : (Sign.ofBitVec (unpackSign b)).toBitVec = unpackSign b := by
    generalize unpackSign b = v
    revert v
    decide
  apply BitVec.eq_of_toNat_eq
  rw [toNat_packComponents, hsign, toNat_unpackSign, toNat_unpackExponent, toNat_unpackMantissa]
  have hb : b.toNat < 2 ^ 32 := b.isLt
  omega

/-- What the parts of a pattern stand for. -/
lemma unpack_packComponents (s : Sign) (e : BitVec 8) (m : BitVec 23) :
    unpack .binary32 (packComponents .binary32 s e m) =
      if e = -1#8 then if m = 0#23 then .infinity s else .notANumber
      else if e = 0#8 then
        if h : m = 0#23 then .zero s
        else .finite s m.toNat (-149) (by simpa [BitVec.toNat_pos, BitVec.pos_iff_ne_zero])
      else .finite s (2 ^ 23 + m.toNat) (e.toNat - 150) (by omega) := by
  have hone : (1#1 ++ m).toNat = 2 ^ 23 + m.toNat := by
    rw [BitVec.toNat_append, ← Nat.shiftLeft_add_eq_or_of_lt m.isLt]
    rfl
  simp only [unpack, ofBitVec_unpackSign, unpackExponent_packComponents,
    unpackMantissa_packComponents]
  split_ifs with hones hzero hzero hmantissa
  · rfl
  · rfl
  · rfl
  · subst hzero
    rfl
  · congr 1

/-! ## The length of a mantissa -/

/-- **A mantissa has the right length** if its exponent is the one that the format has for it. -/
def Canonical (m : Nat) (e : Int) : Prop :=
  Format.binary32.targetExponent (totalExponent m e) = e

/-- The exponent that a number is rounded to leaves 24 digits, or is the least one. -/
lemma targetExponent_eq (t : Int) :
    Format.binary32.targetExponent t = max (t - 24) (-149) := rfl

/-- A mantissa and an exponent are canonical if the mantissa has 24 digits, or fewer at the least
exponent. -/
lemma canonical_iff {m : Nat} {e : Int} :
    Canonical m e ↔ m.log2 < 24 ∧ -149 ≤ e ∧ (m.log2 = 23 ∨ e = -149) := by
  rw [Canonical, targetExponent_eq, totalExponent]
  omega

/-- The highest digit of a mantissa is at the lowest position of the format or above. -/
lemma Canonical.le_totalExponent {m : Nat} {e : Int} (h : Canonical m e) :
    -148 ≤ totalExponent m e := by
  have hleast := (canonical_iff.mp h).2.1
  rw [totalExponent]
  omega

/-- **What a pattern stands for**, by its magnitude.

**Proof sketch.** By the exponent and the mantissa of the pattern, as numbers. -/
theorem unpack_cases :
    (0x7f800000 < b.toNat % 2 ^ 31 ∧ unpack .binary32 b = .notANumber) ∨
      (b.toNat % 2 ^ 31 = 0x7f800000 ∧ ∃ s, unpack .binary32 b = .infinity s) ∨
      (b.toNat % 2 ^ 31 = 0 ∧ ∃ s, unpack .binary32 b = .zero s) ∨
      (0 < b.toNat % 2 ^ 31 ∧ b.toNat % 2 ^ 31 < 0x7f800000 ∧
        ∃ s m e h, unpack .binary32 b = .finite s m e h ∧ Canonical m e ∧ e ≤ 104) := by
  have hexponent := toNat_unpackExponent b
  have hmantissa := toNat_unpackMantissa b
  have hunpack := unpack_packComponents (Sign.ofBitVec (unpackSign b)) (unpackExponent b)
    (unpackMantissa b)
  rw [packComponents_unpack] at hunpack
  rw [hunpack]
  generalize Sign.ofBitVec (unpackSign b) = s
  generalize (unpackExponent b : BitVec 8) = e at hexponent
  generalize (unpackMantissa b : BitVec 23) = m at hmantissa
  have he : e.toNat < 2 ^ 8 := e.isLt
  have hm : m.toNat < 2 ^ 23 := m.isLt
  simp only [← BitVec.toNat_inj, BitVec.reduceNeg, BitVec.toNat_ofNat]
  split_ifs with hones hzero hzero hsubnormal
  · exact .inr (.inl ⟨by omega, s, rfl⟩)
  · exact .inl ⟨by omega, rfl⟩
  · exact .inr (.inr (.inl ⟨by omega, s, rfl⟩))
  · have hlog : m.toNat.log2 < 23 := (Nat.log2_lt (by omega)).mpr hm
    exact .inr (.inr (.inr ⟨by omega, by omega, s, m.toNat, -149, by omega, rfl,
      canonical_iff.mpr (by omega), by omega⟩))
  · have hlog : (2 ^ 23 + m.toNat).log2 = 23 :=
      (Nat.log2_eq_iff (by omega)).mpr ⟨by omega, by omega⟩
    exact .inr (.inr (.inr ⟨by omega, by omega, s, 2 ^ 23 + m.toNat, e.toNat - 150, by omega, rfl,
      canonical_iff.mpr (by omega), by omega⟩))

/-- A number with the least exponent and fewer than 24 digits is read back. -/
lemma unpack_subnormal (s : Sign) {m : Nat} (h : 0 < m) (hm : m < 2 ^ 23) :
    unpack .binary32 (packComponents .binary32 s 0#8 (BitVec.ofNat 23 m)) =
      .finite s m (-149) h := by
  have hmantissa : (BitVec.ofNat 23 m).toNat = m := Nat.mod_eq_of_lt hm
  have hne : BitVec.ofNat 23 m ≠ 0#23 := fun heq => by
    rw [← BitVec.toNat_inj, hmantissa] at heq
    exact Nat.ne_of_gt h heq
  rw [unpack_packComponents, if_neg (by decide), if_pos rfl, dif_neg hne]
  congr 1

/-- A number with 24 digits is read back. -/
lemma unpack_normal (s : Sign) {m k : Nat} (h : 0 < m) (hlow : 2 ^ 23 ≤ m) (hm : m < 2 ^ 24)
    (hpos : 0 < k) (hlt : k < 255) :
    unpack .binary32 (packComponents .binary32 s (BitVec.ofNat 8 k) (BitVec.ofNat 23 m)) =
      .finite s m (k - 150) h := by
  have hexponent : (BitVec.ofNat 8 k).toNat = k := Nat.mod_eq_of_lt (by omega)
  have hmantissa : (BitVec.ofNat 23 m).toNat = m % 2 ^ 23 := rfl
  have hones : BitVec.ofNat 8 k ≠ -1#8 := fun heq => by
    rw [← BitVec.toNat_inj, hexponent] at heq
    exact Nat.ne_of_lt hlt heq
  have hzero : BitVec.ofNat 8 k ≠ 0#8 := fun heq => by
    rw [← BitVec.toNat_inj, hexponent] at heq
    exact Nat.ne_of_gt hpos heq
  rw [unpack_packComponents, if_neg hones, if_neg hzero]
  congr 1 <;> omega

/-! ## Packing a result -/

/-- What is left of a result when it has been packed. -/
def settled (f : UnpackedFloat) : UnpackedFloat :=
  unpack .binary32 (pack .binary32 f)

/-- An infinity is what it is packed to. -/
@[simp]
lemma settled_infinity (s : Sign) : settled (.infinity s) = .infinity s := by
  rw [settled, pack, packedInfinity, unpack_packComponents]
  rfl

/-- A zero is what it is packed to. -/
@[simp]
lemma settled_zero (s : Sign) : settled (.zero s) = .zero s := by
  rw [settled, pack, packedZero, unpack_packComponents]
  rfl

/-- **A result survives packing** if its mantissa has the right length, unless it is so great that
it becomes an infinity.

**Proof sketch.** By the exponent: too great ones give an infinity, and in all others the exponent
and the mantissa are read back as they are, with or without the leading digit. -/
theorem settled_finite (s : Sign) {m : Nat} {e : Int} (h : 0 < m) (hc : Canonical m e) :
    settled (.finite s m e h) = if e ≤ 104 then .finite s m e h else .infinity s := by
  obtain ⟨hlog, hleast, hlength⟩ := canonical_iff.mp hc
  have hm : m < 2 ^ 24 := (Nat.log2_lt (Nat.ne_of_gt h)).mp hlog
  have hbits : Format.binary32.mantissaBits = 24 := rfl
  have hbias : (e + Format.binary32.exponentBias + (23 : Nat)).toNat = (e + 150).toNat := by
    have : Format.binary32.exponentBias = 127 := rfl
    omega
  rw [settled, pack]
  simp only [hbits]
  rw [hbias]
  by_cases hle : e ≤ 104
  · rw [if_pos hle, if_neg (by omega)]
    split_ifs with hnormal
    · rw [unpack_normal s h ((Nat.le_log2 (Nat.ne_of_gt h)).mp (by omega)) hm (by omega) (by omega)]
      congr 1
      omega
    · obtain rfl : e = -149 := by omega
      exact unpack_subnormal s h ((Nat.log2_lt (Nat.ne_of_gt h)).mp (by omega))
  · rw [if_neg hle, if_pos (by omega), packedInfinity, unpack_packComponents]
    rfl

/-- **What has been read from a pattern survives packing.** -/
theorem settled_unpack : settled (unpack .binary32 b) = unpack .binary32 b := by
  rcases unpack_cases b with ⟨_, h⟩ | ⟨_, s, h⟩ | ⟨_, s, h⟩ | ⟨_, _, s, m, e, hm, h, hc, he⟩ <;>
    rw [h]
  · rfl
  · exact settled_infinity s
  · exact settled_zero s
  · rw [settled_finite s hm hc, if_pos he]

/-! ## Signs -/

/-- **A number with the sign `s`**, infinite or not. -/
inductive Signed (s : Sign) : UnpackedFloat → Prop
  /-- An infinity. -/
  | infinity : Signed s (.infinity s)
  /-- A zero. -/
  | zero : Signed s (.zero s)
  /-- Any other number. -/
  | finite (m : Nat) (e : Int) (h : 0 < m) : Signed s (.finite s m e h)

namespace Signed

variable {s : Sign} {f : UnpackedFloat}

/-- What has a sign is a number. -/
lemma ne_notANumber (h : Signed s f) : f ≠ .notANumber := by
  cases h <;> exact nofun

/-- What is packed with a sign has this sign, unless it is not a number. -/
lemma unpack_packComponents {e : BitVec 8} {m : BitVec 23} (h : e = -1#8 → m = 0#23) :
    Signed s (unpack .binary32 (packComponents .binary32 s e m)) := by
  rw [Packing.unpack_packComponents]
  split_ifs with hones hzero
  · exact .infinity
  · exact absurd (h hones) hzero
  · exact .zero
  · exact .finite ..
  · exact .finite ..

/-- **Packing keeps the sign**, and what is a number stays one.

**Proof sketch.** The sign is packed by itself. The greatest exponent is packed only without a
mantissa, and stands for an infinity then. -/
theorem packed (h : Signed s f) : Signed s (settled f) := by
  cases h with
  | infinity => rw [settled_infinity]; exact .infinity
  | zero => rw [settled_zero]; exact .zero
  | finite m e h =>
    rw [settled, pack]
    generalize (e + Format.binary32.exponentBias +
      Format.binary32.mantissaBitsWithoutImplicit).toNat = k
    split_ifs with hgreat hnormal
    · exact unpack_packComponents fun _ => rfl
    · refine unpack_packComponents fun heq => ?_
      change ¬2 ^ 8 ≤ k + 1 at hgreat
      have hexponent : (BitVec.ofNat 8 k).toNat = k := Nat.mod_eq_of_lt (by omega)
      have hones : k = 255 := hexponent.symm.trans (congrArg BitVec.toNat heq)
      omega
    · exact unpack_packComponents nofun

end Signed

/-- **A number that is not below zero**: the negative zero, or a number with the positive sign. -/
def Nonneg (f : UnpackedFloat) : Prop :=
  f = .zero .negative ∨ Signed .positive f

namespace Nonneg

variable {f : UnpackedFloat}

/-- What is not below zero is a number. -/
lemma ne_notANumber (h : Nonneg f) : f ≠ .notANumber := by
  rcases h with rfl | h
  · exact nofun
  · exact h.ne_notANumber

/-- What is not below zero is not below zero after it has been packed. -/
theorem packed (h : Nonneg f) : Nonneg (settled f) := by
  rcases h with rfl | h
  · exact .inl (settled_zero _)
  · exact .inr h.packed

end Nonneg

/-- **Only what is no number is packed as such.**

**Proof sketch.** Whatever has a sign keeps it. -/
theorem settled_eq_notANumber_iff {f : UnpackedFloat} :
    settled f = .notANumber ↔ f = .notANumber := by
  constructor
  · intro h
    cases f with
    | notANumber => rfl
    | infinity s => exact absurd h (Signed.packed .infinity).ne_notANumber
    | zero s => exact absurd h (Signed.packed .zero).ne_notANumber
    | finite s m e hm => exact absurd h (Signed.packed (.finite m e hm)).ne_notANumber
  · rintro rfl
    rfl

end Proximity.Packing

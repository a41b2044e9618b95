import Proximity.Proofs.Single.Packing

set_option autoImplicit false
set_option relaxedAutoImplicit false

/-!
# Rounding

Rounding shortens a mantissa to the length that the format has for its exponent. The position of the
highest digit stays where it is or moves up by one, so that a number that is not too small for the
format is not rounded to zero, and a root or a product of such numbers is as great as the positions
of their highest digits let expect.

## Main definitions

* `Proximity.Rounding.Exceeds` — a positive number with a highest digit at some position or above.

## Main results

* `Proximity.Rounding.exists_roundWithAccuracy` — what rounding gives.
* `Proximity.Rounding.Exceeds.sqrt`, `Proximity.Rounding.Exceeds.mul` — roots and products.
-/

namespace Proximity.Rounding

open Float.Model (Format UnpackedFloat totalExponent)
open Float.Model.UnpackedFloat
open Packing

/-! ## Shifting -/

/-- A shift to the right divides the mantissa. -/
lemma mantissa_shiftRight (em : ExtendedMantissa) (k : Nat) :
    (em >>> k).mantissa = em.mantissa / 2 ^ k := by
  induction k with
  | zero => exact (Nat.div_one _).symm
  | succ k ih =>
    have hstep : (em >>> (k + 1)).mantissa = (em >>> k).mantissa / 2 := rfl
    rw [hstep, ih, Nat.div_div_eq_div_mul, Nat.pow_succ]

/-- What is known of the digits behind a mantissa does not change it. -/
lemma mantissa_ofMantissaAndAccuracy (m : Nat) (accuracy : Accuracy) :
    (ExtendedMantissa.ofMantissaAndAccuracy m accuracy).mantissa = m := by
  rcases accuracy with _ | _ | _ | _ <;> rfl

/-- Rounding goes up by one at most. -/
lemma roundedMantissa_bounds (em : ExtendedMantissa) :
    em.mantissa ≤ em.roundedMantissa ∧ em.roundedMantissa ≤ em.mantissa + 1 := by
  rcases em with ⟨m, roundBit, stickyBit⟩
  cases roundBit <;> cases stickyBit <;>
    simp only [ExtendedMantissa.roundedMantissa, ExtendedMantissa.accuracy,
      Accuracy.roundToNearestEven] <;>
    omega

/-- Dividing by a power of two takes digits away. -/
lemma log2_div_two_pow {m k : Nat} (hm : 0 < m) (hk : k ≤ m.log2) :
    0 < m / 2 ^ k ∧ (m / 2 ^ k).log2 = m.log2 - k := by
  have hlow : 2 ^ m.log2 ≤ m := Nat.log2_self_le (Nat.ne_of_gt hm)
  have hhigh : m < 2 ^ (m.log2 + 1) := Nat.lt_log2_self
  have hle : 2 ^ k ≤ m := Nat.le_trans (Nat.pow_le_pow_right (by decide) hk) hlow
  have hpos : 0 < m / 2 ^ k := Nat.div_pos hle (Nat.two_pow_pos k)
  refine ⟨hpos, (Nat.log2_eq_iff (Nat.ne_of_gt hpos)).mpr ⟨?_, ?_⟩⟩
  · rwa [Nat.le_div_iff_mul_le (Nat.two_pow_pos k), ← Nat.pow_add, Nat.sub_add_cancel hk]
  · rwa [Nat.div_lt_iff_lt_mul (Nat.two_pow_pos k), ← Nat.pow_add,
      show m.log2 - k + 1 + k = m.log2 + 1 by omega]

/-- A greater number has no fewer digits. -/
lemma log2_le_log2 {m n : Nat} (hm : 0 < m) (hle : m ≤ n) : m.log2 ≤ n.log2 :=
  (Nat.le_log2 (by omega)).mpr (Nat.le_trans (Nat.log2_self_le (Nat.ne_of_gt hm)) hle)

/-- Shifting to the exponent of the format keeps the position of the highest digit. -/
lemma exists_shiftToTargetExponent {m : Nat} {e : Int} (accuracy : Accuracy) (hm : 0 < m)
    (he : e ≤ Format.binary32.targetExponent (totalExponent m e)) (ht : -148 ≤ totalExponent m e) :
    ∃ em, shiftToTargetExponent .binary32 m e accuracy =
        (em, Format.binary32.targetExponent (totalExponent m e)) ∧ 0 < em.mantissa ∧
      totalExponent em.mantissa (Format.binary32.targetExponent (totalExponent m e)) =
        totalExponent m e := by
  have htarget := targetExponent_eq (totalExponent m e)
  have htotal : totalExponent m e = m.log2 + 1 + e := rfl
  rw [shiftToTargetExponent, shiftToExponent]
  generalize Format.binary32.targetExponent (totalExponent m e) = t at *
  obtain ⟨hpos, hlog⟩ := log2_div_two_pow hm (show (t - e).toNat ≤ m.log2 by omega)
  have hmantissa : (ExtendedMantissa.ofMantissaAndAccuracy m accuracy >>> (t - e).toNat).mantissa =
      m / 2 ^ (t - e).toNat := by
    rw [mantissa_shiftRight, mantissa_ofMantissaAndAccuracy]
  refine ⟨_, Prod.ext rfl (show e + ((t - e).toNat : Int) = t by omega), hmantissa ▸ hpos, ?_⟩
  rw [hmantissa, totalExponent, hlog]
  omega

/-- **What rounding gives**: a number of the same sign with a mantissa of the right length, the
highest digit of which is where it was before or one position above.

**Proof sketch.** Rounding adds one to the mantissa at most, which can move the highest digit up by
one. If the mantissa becomes too long then it is shortened by a digit. -/
theorem exists_roundWithAccuracy (s : Sign) {m : Nat} {e : Int} (accuracy : Accuracy) (hm : 0 < m)
    (he : e ≤ Format.binary32.targetExponent (totalExponent m e)) (ht : -148 ≤ totalExponent m e) :
    ∃ m' e' h, roundWithAccuracy .binary32 s m e accuracy = .finite s m' e' h ∧ Canonical m' e' ∧
      totalExponent m e ≤ totalExponent m' e' ∧ totalExponent m' e' ≤ totalExponent m e + 1 := by
  obtain ⟨em, hshift, hpos, htotal⟩ := exists_shiftToTargetExponent accuracy hm he ht
  have htarget := targetExponent_eq (totalExponent m e)
  generalize Format.binary32.targetExponent (totalExponent m e) = t at *
  obtain ⟨hlow, hhigh⟩ := roundedMantissa_bounds em
  have hrounded : 0 < em.roundedMantissa := by omega
  have hlogLow : em.mantissa.log2 ≤ em.roundedMantissa.log2 := log2_le_log2 hpos hlow
  have hlogHigh : em.roundedMantissa.log2 ≤ em.mantissa.log2 + 1 := by
    rw [← Nat.log2_two_mul (Nat.ne_of_gt hpos)]
    exact log2_le_log2 hrounded (by omega)
  have hbounds : totalExponent m e ≤ totalExponent em.roundedMantissa t ∧
      totalExponent em.roundedMantissa t ≤ totalExponent m e + 1 := by
    rw [← htotal]
    simp only [totalExponent]
    omega
  -- The second shift is for a mantissa that rounding has made one digit longer.
  obtain ⟨em', hshift', hpos', htotal'⟩ := exists_shiftToTargetExponent .exact hrounded
    (by rw [targetExponent_eq]; omega) (Int.le_trans ht hbounds.1)
  refine ⟨em'.mantissa, _, hpos', ?_, congrArg Format.binary32.targetExponent htotal', ?_⟩
  · simp only [roundWithAccuracy, hshift, hshift', dif_neg (Nat.ne_of_gt hpos')]
  · rwa [htotal']

/-- Rounding keeps the sign, also of what becomes zero. -/
lemma signed_roundWithAccuracy (s : Sign) (m : Nat) (e : Int) (accuracy : Accuracy) :
    Signed s (roundWithAccuracy .binary32 s m e accuracy) := by
  simp only [roundWithAccuracy]
  split_ifs
  · exact .zero
  · exact .finite ..

/-- Rounding keeps the sign. -/
lemma signed_round (s : Sign) (m : Nat) (e : Int) :
    Signed s (UnpackedFloat.round .binary32 s m e) :=
  signed_roundWithAccuracy ..

/-- A positive number is normalized by rounding it. -/
lemma normalize_of_pos {m : Int} (hm : 0 < m) (e : Int) (s : Sign) :
    UnpackedFloat.normalize .binary32 m e s =
      UnpackedFloat.round .binary32 .positive m.toNat e := by
  rw [UnpackedFloat.normalize, Int.compare_eq_gt.mpr hm]

/-- Rounding gives a number. -/
@[simp]
lemma roundWithAccuracy_ne_notANumber (s : Sign) (m : Nat) (e : Int) (accuracy : Accuracy) :
    roundWithAccuracy .binary32 s m e accuracy ≠ .notANumber :=
  (signed_roundWithAccuracy ..).ne_notANumber

/-- Normalizing gives a number. -/
@[simp]
lemma normalize_ne_notANumber (m e : Int) (s : Sign) :
    UnpackedFloat.normalize .binary32 m e s ≠ .notANumber := by
  rw [UnpackedFloat.normalize]
  split
  · exact (signed_round ..).ne_notANumber
  · exact nofun
  · exact (signed_round ..).ne_notANumber

/-- A shift to the left adds digits. -/
lemma log2_shiftLeft {m : Nat} (hm : 0 < m) (k : Nat) : (m <<< k).log2 = m.log2 + k := by
  have hlow : 2 ^ m.log2 ≤ m := Nat.log2_self_le (Nat.ne_of_gt hm)
  have hhigh : m < 2 ^ (m.log2 + 1) := Nat.lt_log2_self
  rw [Nat.log2_eq_iff (Nat.ne_of_gt (Nat.shiftLeft_pos_iff.mpr hm)), Nat.shiftLeft_eq,
    Nat.add_right_comm, Nat.pow_add, Nat.pow_add]
  exact ⟨Nat.mul_le_mul_right _ hlow, Nat.mul_lt_mul_of_pos_right hhigh (Nat.two_pow_pos k)⟩

/-- Rounding a number with an exponent that may be too great for the format. -/
lemma exists_round (s : Sign) {m : Nat} {e : Int} (hm : 0 < m) (ht : -148 ≤ totalExponent m e) :
    ∃ m' e' h, UnpackedFloat.round .binary32 s m e = .finite s m' e' h ∧ Canonical m' e' ∧
      totalExponent m e ≤ totalExponent m' e' ∧ totalExponent m' e' ≤ totalExponent m e + 1 := by
  have htotal (k : Nat) : totalExponent (m <<< k) (e - k) = totalExponent m e := by
    rw [totalExponent, totalExponent, log2_shiftLeft hm]
    omega
  rw [UnpackedFloat.round, decreaseExponent]
  generalize hk : (e - Format.binary32.targetExponent (totalExponent m e)).toNat = k
  have hresult := exists_roundWithAccuracy s .exact (Nat.shiftLeft_pos_iff.mpr hm) (e := e - k)
    (by rw [htotal]; omega) (by rwa [htotal])
  rwa [htotal] at hresult

/-! ## Numbers that are not below zero -/

/-- A square is not below zero. -/
lemma nonneg_mul_self {f : UnpackedFloat} (h : f ≠ .notANumber) :
    Nonneg (mul .binary32 f f) := by
  have hpositive (s : Sign) : s * s = .positive := by cases s <;> rfl
  right
  cases f with
  | notANumber => exact absurd rfl h
  | infinity s => exact hpositive s ▸ Signed.infinity
  | zero s => exact hpositive s ▸ Signed.zero
  | finite s m e hm =>
    rw [mul, hpositive]
    exact signed_roundWithAccuracy ..

/-- A sum of numbers that are not below zero is not below zero.

**Proof sketch.** By the signs and kinds of both numbers; the sum of two mantissas is positive. -/
lemma nonneg_add {f g : UnpackedFloat} (hf : Nonneg f) (hg : Nonneg g) :
    Nonneg (add .binary32 f g) := by
  rcases hf with rfl | hf
  · rcases hg with rfl | hg
    · exact .inl rfl
    · right
      cases hg <;> constructor
  · right
    rcases hg with rfl | hg
    · cases hf <;> constructor
    · cases hf with
      | infinity => cases hg <;> exact .infinity
      | zero => cases hg <;> constructor
      | finite m e hm =>
        cases hg with
        | infinity => exact .infinity
        | zero => exact .finite ..
        | finite n e' hn =>
          have hpos : 0 < m <<< (e - min e e').toNat := Nat.shiftLeft_pos_iff.mpr hm
          have hpos' : 0 < n <<< (e' - min e e').toNat := Nat.shiftLeft_pos_iff.mpr hn
          rw [add]
          simp only [decreaseExponent, Sign.apply]
          rw [normalize_of_pos (by omega)]
          exact signed_round ..

/-- A root of a number that is not below zero is not below zero. -/
lemma nonneg_sqrt {f : UnpackedFloat} (h : Nonneg f) :
    Nonneg (UnpackedFloat.sqrt .binary32 f) := by
  rcases h with rfl | h
  · exact .inl rfl
  · right
    cases h with
    | infinity => exact .infinity
    | zero => exact .zero
    | finite m e hm => exact signed_roundWithAccuracy ..

/-! ## Products and roots -/

/-- **A positive number whose highest digit is at position `t` or above**, if it is not infinite. -/
inductive Exceeds (t : Int) : UnpackedFloat → Prop
  /-- The positive infinity. -/
  | infinity : Exceeds t (.infinity .positive)
  /-- A number with a mantissa of the right length. -/
  | finite {m : Nat} {e : Int} (h : 0 < m) (hc : Canonical m e) (ht : t ≤ totalExponent m e) :
      Exceeds t (.finite .positive m e h)

/-- A product has no fewer digits than its factors give. -/
lemma log2_add_log2_le {m n : Nat} (hm : 0 < m) (hn : 0 < n) :
    m.log2 + n.log2 ≤ (m * n).log2 := by
  rw [Nat.le_log2 (Nat.ne_of_gt (Nat.mul_pos hm hn)), Nat.pow_add]
  exact Nat.mul_le_mul (Nat.log2_self_le (Nat.ne_of_gt hm)) (Nat.log2_self_le (Nat.ne_of_gt hn))

/-- A root has half the digits. -/
lemma log2_sqrt {n : Nat} (hn : 0 < n) : n.sqrt.log2 = n.log2 / 2 := by
  have hlow : 2 ^ n.log2 ≤ n := Nat.log2_self_le (Nat.ne_of_gt hn)
  have hhigh : n < 2 ^ (n.log2 + 1) := Nat.lt_log2_self
  rw [Nat.log2_eq_iff (Nat.ne_of_gt (Nat.sqrt_pos.mpr hn)), Nat.le_sqrt, Nat.sqrt_lt, ← Nat.pow_add,
    ← Nat.pow_add]
  exact ⟨Nat.le_trans (Nat.pow_le_pow_right (by decide) (by omega)) hlow,
    Nat.lt_of_lt_of_le hhigh (Nat.pow_le_pow_right (by decide) (by omega))⟩

namespace Exceeds

variable {a b t : Int} {f g : UnpackedFloat}

/-- A number that exceeds a power of two still does after it has been packed. -/
lemma packed (h : Exceeds t f) : Exceeds t (settled f) := by
  cases h with
  | infinity => rw [settled_infinity]; exact .infinity
  | finite h hc ht =>
    rw [settled_finite .positive h hc]
    split_ifs
    · exact .finite h hc ht
    · exact .infinity

/-- What exceeds a power of two is a number. -/
lemma ne_notANumber (h : Exceeds t f) : f ≠ .notANumber := by
  cases h <;> exact nofun

/-- What exceeds a power of two is not zero. -/
lemma ne_zero (h : Exceeds t f) (s : Sign) : f ≠ .zero s := by
  cases h <;> exact nofun

/-- A product is as great as its factors let expect.

**Proof sketch.** The product of two mantissas has its highest digit where those of the factors say,
or one position above, and rounding does not lower it. -/
theorem mul (hf : Exceeds a f) (hg : Exceeds b g) (ht : -148 ≤ a + b - 1) :
    Exceeds (a + b - 1) (mul .binary32 f g) := by
  cases hf with
  | infinity => cases hg <;> exact .infinity
  | @finite m e hm hc ha =>
    cases hg with
    | infinity => exact .infinity
    | @finite n e' hn hc' hb =>
      have hlog := log2_add_log2_le hm hn
      have hcanonical := canonical_iff.mp hc
      have hcanonical' := canonical_iff.mp hc'
      have htotal : totalExponent (m * n) (e + e') = (m * n).log2 + 1 + (e + e') := rfl
      simp only [totalExponent] at ha hb
      obtain ⟨m', e'', h, hround, hc'', hlow, -⟩ := exists_roundWithAccuracy .positive .exact
        (Nat.mul_pos hm hn) (e := e + e') (by rw [targetExponent_eq]; omega) (by omega)
      have hmul : UnpackedFloat.mul .binary32 (.finite .positive m e hm)
        (.finite .positive n e' hn) = .finite .positive m' e'' h := hround
      rw [hmul]
      exact .finite h hc'' (by omega)

/-- The root that is rounded has the right number of digits, and its highest one is where it has to
be. -/
lemma sqrtCore_spec {m : Nat} {e : Int} (hm : 0 < m) :
    ∃ root e' accuracy, sqrtCore .binary32 m e = (root, e', accuracy) ∧ 0 < root ∧
      e' ≤ Format.binary32.targetExponent (totalExponent root e') ∧
      totalExponent root e' = (totalExponent m e + 1) / 2 := by
  refine ⟨_, _, _, rfl, ?_⟩
  generalize ht : min (e.ediv 2)
    (Format.binary32.targetExponent ((totalExponent m e + 1).ediv 2)) = t
  have hle : t ≤ e / 2 := ht ▸ Int.min_le_left _ _
  have htarget : t ≤ Format.binary32.targetExponent ((totalExponent m e + 1) / 2) :=
    ht ▸ Int.min_le_right _ _
  generalize hk : (e - 2 * t).toNat = k
  have hpos : 0 < m <<< k := Nat.shiftLeft_pos_iff.mpr hm
  have htotal : totalExponent (m <<< k).sqrt t = (totalExponent m e + 1) / 2 := by
    rw [totalExponent, totalExponent, log2_sqrt hpos, log2_shiftLeft hm]
    omega
  exact ⟨Nat.sqrt_pos.mpr hpos, htotal ▸ htarget, htotal⟩

/-- A root is as great as the number under it lets expect. -/
theorem sqrt (h : Exceeds t f) : Exceeds ((t + 1) / 2) (UnpackedFloat.sqrt .binary32 f) := by
  cases h with
  | infinity => exact .infinity
  | @finite m e hm hc ht =>
    obtain ⟨root, e', accuracy, hcore, hpos, he, htotal⟩ := @sqrtCore_spec m e hm
    have hleast := hc.le_totalExponent
    obtain ⟨m', e'', h, hround, hc', hlow, -⟩ := exists_roundWithAccuracy .positive accuracy hpos he
      (by omega)
    have hsqrt : UnpackedFloat.sqrt .binary32 (.finite .positive m e hm) =
        .finite .positive m' e'' h := by
      rw [UnpackedFloat.sqrt, hcore]
      exact hround
    rw [hsqrt]
    exact .finite h hc' (by omega)

/-- The least number of the format is the only one whose highest digit is at the lowest position.

**Proof sketch.** A mantissa of one digit at the lowest exponent is the least number. -/
lemma eq_least_or (h : Exceeds (-148) f) :
    f = .finite .positive 1 (-149) (by decide) ∨ Exceeds (-147) f := by
  cases h with
  | infinity => exact .inr .infinity
  | @finite m e h hc ht =>
    have hcanonical := canonical_iff.mp hc
    rw [totalExponent] at ht
    by_cases hlog : m.log2 < 1
    · have hm : m < 2 ^ 1 := (Nat.log2_lt (Nat.ne_of_gt h)).mp hlog
      obtain rfl : m = 1 := by omega
      by_cases he : e = -149
      · subst he
        exact .inl rfl
      · refine .inr (.finite h hc ?_)
        rw [totalExponent]
        omega
    · refine .inr (.finite h hc ?_)
      rw [totalExponent]
      omega

/-- The root of the least positive number. -/
lemma sqrt_least : UnpackedFloat.sqrt .binary32 (.finite .positive 1 (-149) (by decide)) =
    .finite .positive 11863283 (-98) (by decide) := by
  have hroot : (2 ^ 47 : Nat).sqrt = 11863283 := (Nat.eq_sqrt.mpr (by decide)).symm
  have hcore : sqrtCore .binary32 1 (-149) = (11863283, -98, .inexact .lt) := by
    have hshifted : 1 <<< ((-149 : Int) - 2 * min (Int.ediv (-149) 2)
      (Format.binary32.targetExponent ((totalExponent 1 (-149) + 1).ediv 2))).toNat = 2 ^ 47 := rfl
    simp only [sqrtCore, hshifted, hroot]
    rfl
  rw [UnpackedFloat.sqrt, hcore]
  rfl

/-- **A product of two roots is not rounded to zero.** The positions of the highest digits show it
for all numbers but two times the least one, where the rounding has to be computed.

**Proof sketch.** The roots have their highest digits at half the positions. If both numbers are the
least one the product is computed; otherwise one of the roots is greater, and that suffices. -/
theorem mul_sqrt (hf : Exceeds (-148) f) (hg : Exceeds (-148) g) :
    Exceeds (-148) (UnpackedFloat.mul .binary32 (settled (UnpackedFloat.sqrt .binary32 f))
      (settled (UnpackedFloat.sqrt .binary32 g))) := by
  have hf' : Exceeds (-74) (settled (UnpackedFloat.sqrt .binary32 f)) := hf.sqrt.packed
  have hg' : Exceeds (-74) (settled (UnpackedFloat.sqrt .binary32 g)) := hg.sqrt.packed
  rcases hf.eq_least_or with rfl | hf
  · rcases hg.eq_least_or with rfl | hg
    · rw [sqrt_least]
      have hproduct : UnpackedFloat.mul .binary32
          (settled (.finite .positive 11863283 (-98) (by decide)))
          (settled (.finite .positive 11863283 (-98) (by decide))) =
        .finite .positive 1 (-149) (by decide) := rfl
      rw [hproduct]
      exact .finite _ (canonical_iff.mpr (by decide)) (by decide)
    · have hgreater : Exceeds (-73) (settled (UnpackedFloat.sqrt .binary32 g)) := hg.sqrt.packed
      exact hf'.mul hgreater (by decide)
  · have hgreater : Exceeds (-73) (settled (UnpackedFloat.sqrt .binary32 f)) := hf.sqrt.packed
    exact hgreater.mul hg' (by decide)

end Exceeds

end Proximity.Rounding

import Proximity.Proofs.Single.Arithmetic

set_option autoImplicit false
set_option relaxedAutoImplicit false

/-!
# The total order of patterns

All patterns have a place in one total order, those that are no numbers included. No two patterns
share a place, and where two numbers differ in value their places are in the order of their values.

## Main results

* `Proximity.Single.rank_injective` — no two patterns share a place.
* `Proximity.Single.rank_lt_of_lt` — lesser numbers have lower places.
-/

namespace Proximity.Single

variable {x y : Single}

/-- A number is negative if its highest bit is set. -/
lemma isNegative_iff : x.isNegative = true ↔ 2 ^ 31 ≤ x.bits.toNat := by
  rw [isNegative, decide_eq_true_eq, UInt32.le_iff_toNat_le]
  rfl

/-- **No two patterns share a place** in the total order.

**Proof sketch.** Patterns with the sign have places below those without, and in each half the place
tells the magnitude. -/
theorem rank_injective : Function.Injective rank := by
  intro x y h
  have hx := x.bits.toNat_lt
  have hy := y.bits.toNat_lt
  have hbits : x.bits.toNat = y.bits.toNat := by
    simp only [rank, isNegative_iff, toNat_magnitude] at h
    split_ifs at h <;> omega
  cases x
  cases y
  exact congrArg Single.mk (UInt32.toNat_inj.mp hbits)

/-- **Lesser numbers have lower places.** -/
theorem rank_lt_of_lt (h : x.lt y = true) : x.rank < y.rank := by
  rw [lt, Bool.and_eq_true, decide_eq_true_eq] at h
  have hvalue := h.2
  unfold value at hvalue
  unfold rank
  split_ifs at hvalue ⊢ <;> omega

end Proximity.Single

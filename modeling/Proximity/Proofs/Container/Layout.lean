import Mathlib.Order.Bounds.Basic
import Proximity.Proofs.Container

set_option relaxedAutoImplicit false
set_option autoImplicit false

/-!
# The best layout

A container has as many slots as share the greatest container and can be numbered by a byte, and as
few pages as hold them. Either number is a division, and each of the two is pinned down by the
question that it answers: so many slots fit exactly if they are no more than there are, and so many
pages suffice exactly if they are no fewer. A vector that is too long to share a container has one
of its own, which is as long as it has to be.

## Main definitions

* `Proximity.ContainerLayout.Best` — as many slots as possible on as few pages as possible, one
  beside the other.

## Main results

* `Proximity.pagesForBytes_le_iff` — so many pages suffice.
* `Proximity.le_slotsPerContainer_iff` — so many slots fit.
* `Proximity.ContainerLayout.exists_best` — every length that a page run can hold has the best
  layout.
-/

namespace Proximity

/-! ## Pages -/

section Pages

variable {bytes : Nat} (hpos : 0 < bytes) (hbytes : bytes + pageSize ≤ UInt64.size)
include hpos hbytes

/-- **So many pages suffice** exactly if they are no fewer than are taken. -/
theorem pagesForBytes_le_iff {pages : Nat} :
    pagesForBytes bytes ≤ pages ↔ bytes ≤ pages * pageSize := by
  rw [ContainerLayout.pagesForBytes_eq hbytes, if_neg (by omega), pageSize]
  omega

/-- No fewer pages than are taken hold the bytes. -/
lemma isLeast_pagesForBytes :
    IsLeast {pages | bytes ≤ pages * pageSize} (pagesForBytes bytes) :=
  ⟨ContainerLayout.le_pagesForBytes hbytes,
    fun _ hpages => (pagesForBytes_le_iff hpos hbytes).mpr hpages⟩

end Pages

/-! ## Slots -/

section Slots

variable {vectorLength : Nat} (hpos : 0 < vectorLength)
include hpos

/-- **So many slots fit** exactly if they are no more than there are, where a vector can share a
container. -/
theorem le_slotsPerContainer_iff (hle : vectorLength ≤ maxContainerPages * pageSize) {slots : Nat} :
    slots ≤ slotsPerContainer vectorLength ↔
      slots ≤ maxContainerSlots ∧ slots * vectorLength ≤ maxContainerPages * pageSize := by
  have hone : 1 ≤ maxContainerPages * pageSize / vectorLength := Nat.div_pos hle hpos
  rw [slotsPerContainer, if_neg (by omega),
    Nat.max_eq_right (Nat.le_min.mpr ⟨hone, by decide⟩), Nat.le_min, Nat.le_div_iff_mul_le hpos,
    and_comm]

/-- A vector that is too long to share a container has one of its own. -/
lemma slotsPerContainer_eq_one (hlong : maxContainerPages * pageSize < vectorLength) :
    slotsPerContainer vectorLength = 1 := by
  rw [slotsPerContainer, if_neg (by omega), Nat.div_eq_of_lt hlong, Nat.zero_min, Nat.max_eq_left]
  exact Nat.zero_le 1

/-- A container has as many slots as are allowed and fit into the greatest number of pages. -/
lemma isGreatest_slotsPerContainer (hle : vectorLength ≤ maxContainerPages * pageSize) :
    IsGreatest {slots | slots ≤ maxContainerSlots ∧
      slots * vectorLength ≤ maxContainerPages * pageSize} (slotsPerContainer vectorLength) :=
  ⟨(le_slotsPerContainer_iff hpos hle).mp (Nat.le_refl _),
    fun _ hslots => (le_slotsPerContainer_iff hpos hle).mpr hslots⟩

end Slots

/-! ## Layouts -/

namespace ContainerLayout

/-- **The best layout** for vectors of some length: as many slots as share a container, on as few
pages as hold them. The number of pages has not been cut off, and nothing on the way to it goes
beyond the machine integers. The slots lie one behind the other within the pages. -/
structure Best (layout : ContainerLayout) (vectorLength : Nat) : Prop where
  vectorLength_eq : layout.vectorLength = vectorLength
  slots_pos : 1 ≤ layout.slots
  slots_le : layout.slots ≤ maxContainerSlots
  slots_greatest : vectorLength ≤ maxContainerPages * pageSize →
    IsGreatest {slots | slots ≤ maxContainerSlots ∧
      slots * vectorLength ≤ maxContainerPages * pageSize} layout.slots
  slots_eq_one : maxContainerPages * pageSize < vectorLength → layout.slots = 1
  bytes_lt : layout.slots * vectorLength + pageSize < UInt64.size
  pages_eq : layout.pages = pagesForBytes (layout.slots * vectorLength)
  pages_lt : layout.pages < UInt32.size
  pages_pos : 1 ≤ layout.pages
  pages_le : vectorLength ≤ maxContainerPages * pageSize → layout.pages ≤ maxContainerPages
  pages_least : IsLeast {pages | layout.slots * vectorLength ≤ pages * pageSize} layout.pages
  within : ∀ slot : UInt8, slot.toNat < layout.slots →
    layout.slotOffset slot + vectorLength ≤ layout.pages * pageSize
  apart : ∀ slot later : UInt8, slot < later →
    layout.slotOffset slot + vectorLength ≤ layout.slotOffset later

variable {layout : ContainerLayout} {slot later : UInt8}

/-- A slot ends before a later one begins. -/
lemma slotOffset_add_le (h : slot < later) :
    layout.slotOffset slot + layout.vectorLength ≤ layout.slotOffset later := by
  rw [slotOffset, slotOffset, ← Nat.succ_mul]
  exact Nat.mul_le_mul_right _ (UInt8.lt_iff_toNat_lt.mp h)

/-- All slots of a layout that fits lie within its pages. -/
lemma Fits.slotOffset_add_le (hfits : layout.Fits) (hslot : slot.toNat < layout.slots) :
    layout.slotOffset slot + layout.vectorLength ≤ layout.pages * pageSize := by
  rw [slotOffset, ← Nat.succ_mul]
  exact (Nat.mul_le_mul_right _ hslot).trans hfits.within

/-- A layout has the slots and the pages that its length asks for; the number of pages is not cut
off. -/
lemma slots_and_pages_of_forVectorLength? {vectorLength : Nat} (hpos : 0 < vectorLength)
    (hle : vectorLength ≤ pageSize * (UInt32.size - 1))
    (h : forVectorLength? vectorLength = some layout) :
    layout.slots = slotsPerContainer vectorLength ∧
      layout.slots * vectorLength ≤ (UInt32.size - 1) * pageSize ∧
      layout.pages = pagesForBytes (layout.slots * vectorLength) := by
  simp only [forVectorLength?, Option.ite_none_left_eq_some, Option.some.injEq] at h
  obtain ⟨hslots, rfl⟩ := h
  have hbudget : maxContainerPages * pageSize ≤ pageSize * (UInt32.size - 1) := by decide
  have hbytes : slotsPerContainer vectorLength * vectorLength ≤ (UInt32.size - 1) * pageSize := by
    rw [Nat.mul_comm (UInt32.size - 1)]
    exact (slots_mul_le hpos).trans (Nat.max_le.mpr ⟨hle, hbudget⟩)
  refine ⟨rfl, hbytes, Nat.mod_eq_of_lt (Nat.lt_of_le_pred (by decide) ?_)⟩
  exact (pagesForBytes_le_iff (Nat.mul_pos (Nat.pos_of_ne_zero hslots) hpos)
    ((Nat.add_le_add_right hbytes pageSize).trans (by decide))).mpr hbytes

/-- **Every length that a page run can hold has the best layout.**

**Proof sketch.** The slots are the most that fit and the pages the fewest that hold them; what
remains is that no count overflows. -/
theorem exists_best {vectorLength : Nat} (hpos : 0 < vectorLength)
    (hle : vectorLength ≤ pageSize * (UInt32.size - 1)) :
    ∃ layout, forVectorLength? vectorLength = some layout ∧ layout.Best vectorLength := by
  obtain ⟨layout, hlayout, hlength, hfits⟩ := exists_forVectorLength? hpos hle
  obtain ⟨hslots, hbytes, hpages⟩ := slots_and_pages_of_forVectorLength? hpos hle hlayout
  have hfilled : 0 < layout.slots * vectorLength := Nat.mul_pos hfits.slots_pos hpos
  have hword : layout.slots * vectorLength + pageSize ≤ UInt64.size :=
    (Nat.add_le_add_right hbytes pageSize).trans (by decide)
  exact ⟨layout, hlayout, {
    vectorLength_eq := hlength
    slots_pos := hfits.slots_pos
    slots_le := hfits.slots_le
    slots_greatest := fun hshared => hslots ▸ isGreatest_slotsPerContainer hpos hshared
    slots_eq_one := fun hlong => hslots ▸ slotsPerContainer_eq_one hpos hlong
    bytes_lt := by
      have hsize : (UInt32.size - 1) * pageSize + pageSize < UInt64.size := by decide
      omega
    pages_eq := hpages
    pages_lt := hfits.pages_lt
    pages_pos := hfits.pages_pos
    pages_le := by
      intro hshared
      rw [hpages, pagesForBytes_le_iff hfilled hword, hslots]
      exact (isGreatest_slotsPerContainer hpos hshared).1.2
    pages_least := hpages ▸ isLeast_pagesForBytes hfilled hword
    within := fun slot hslot => hlength ▸ hfits.slotOffset_add_le hslot
    apart := fun slot later hlater => hlength ▸ slotOffset_add_le hlater }⟩

/-- Vectors of 1536 numbers: forty-two of them share thirty-two pages. -/
theorem exists_best_6144 : 0 < 6144 ∧ 6144 ≤ pageSize * (UInt32.size - 1) ∧
    ∃ layout, forVectorLength? 6144 = some layout ∧ layout.Best 6144 :=
  ⟨by decide, by decide, exists_best (by decide) (by decide)⟩

end ContainerLayout

end Proximity

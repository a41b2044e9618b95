import Mathlib.Algebra.Order.Group.Nat
import Mathlib.Tactic.SplitIfs
import Proximity.Container.Record
import Proximity.Proofs.Except

set_option relaxedAutoImplicit false
set_option autoImplicit false

/-!
# What a container holds

A container lists its vectors in slot order, and each of them lies in the slot of its place in the
list. Reading a slot that is taken gives the vector that was put there, putting in one more vector
leaves the others as they are, and reading all slots gives the whole list.

## Main definitions

* `Proximity.ContainerLayout.Fits` — all slots lie within the pages.
* `Proximity.Container.Holds` — the vectors of a container, with their stored forms.

## Main results

* `Proximity.ContainerLayout.exists_forVectorLength?` — a positive length has a layout that fits.
* `Proximity.Container.Holds.exists_push` — one more vector.
* `Proximity.Container.Holds.vector_eq`, `Proximity.Container.Holds.vectorsFrom_eq` — what is read.
-/

namespace Proximity

/-! ## Parts of runs -/

namespace Run

variable {run next : Run} {offset length : Nat} {bytes : Bytes}

/-- A slice within a run can be read. -/
lemma slice?_eq_some (h : offset + length ≤ run.size) :
    run.slice? offset length = some ((run.toList.drop offset).take length) := by
  rw [slice?, if_pos h, Array.toList_extract, List.extract_eq_take_drop, Nat.add_sub_cancel_left]

/-- Overwriting a part of a run that lies inside replaces these bytes and no others. -/
lemma exists_overwrite? (h : offset + bytes.length ≤ run.size) :
    ∃ next, run.overwrite? offset bytes = some next ∧ next.size = run.size ∧
      next.toList =
        run.toList.take offset ++ (bytes ++ run.toList.drop (offset + bytes.length)) := by
  have hlist : (run.extract 0 offset ++ bytes.toArray ++
      run.extract (offset + bytes.length) run.size).toList =
      run.toList.take offset ++ (bytes ++ run.toList.drop (offset + bytes.length)) := by
    have hrest : (run.toList.drop (offset + bytes.length)).take
        (run.size - (offset + bytes.length)) = run.toList.drop (offset + bytes.length) :=
      List.take_of_length_le (by rw [List.length_drop, Array.length_toList])
    simp [List.extract_eq_take_drop, hrest]
  refine ⟨_, by rw [overwrite?, if_pos h], ?_, hlist⟩
  rw [← Array.length_toList, hlist]
  simp only [List.length_append, List.length_take, List.length_drop, Array.length_toList]
  omega

/-- What has been written is read back. -/
lemma slice?_overwrite? (h : run.overwrite? offset bytes = some next) :
    next.slice? offset bytes.length = some bytes := by
  have hfits : offset + bytes.length ≤ run.size := by
    by_contra hfits
    rw [overwrite?, if_neg hfits] at h
    exact absurd h (by simp)
  obtain ⟨written, hwritten, hsize, hlist⟩ := exists_overwrite? hfits
  obtain rfl := Option.some.inj (h.symm.trans hwritten)
  have htake : (run.toList.take offset).length = offset := by
    rw [List.length_take, Array.length_toList]
    omega
  rw [slice?_eq_some (by omega), hlist, List.drop_left' htake, List.take_left]

/-- What lies before the bytes that have been written is what it was. -/
lemma slice?_overwrite?_of_le {start : Nat} (h : run.overwrite? offset bytes = some next)
    (hbefore : start + length ≤ offset) : next.slice? start length = run.slice? start length := by
  have hfits : offset + bytes.length ≤ run.size := by
    by_contra hfits
    rw [overwrite?, if_neg hfits] at h
    exact absurd h (by simp)
  obtain ⟨written, hwritten, hsize, hlist⟩ := exists_overwrite? hfits
  obtain rfl := Option.some.inj (h.symm.trans hwritten)
  have htake : (run.toList.take offset).length = offset := by
    rw [List.length_take, Array.length_toList]
    omega
  rw [slice?_eq_some (by omega), slice?_eq_some (by omega), hlist,
    List.drop_append_of_le_length (by omega),
    List.take_append_of_le_length (by rw [List.length_drop]; omega), List.drop_take, List.take_take,
    Nat.min_eq_left (by omega)]

end Run

/-! ## Layouts -/

namespace ContainerLayout

/-- All slots of a layout lie within its pages, and each can be numbered by a byte. -/
structure Fits (layout : ContainerLayout) : Prop where
  slots_pos : 0 < layout.slots
  slots_le : layout.slots ≤ maxContainerSlots
  within : layout.slots * layout.vectorLength ≤ layout.pages * pageSize
  pages_pos : 0 < layout.pages
  pages_lt : layout.pages < UInt32.size

section Pages

variable {bytes : Nat} (hbytes : bytes + pageSize ≤ UInt64.size)
include hbytes

/-- Rounding up to whole pages does not wrap around, unless the bytes end in the last page that 64
bits count. -/
lemma pagesForBytes_eq :
    pagesForBytes bytes = if bytes = 0 then 1 else (bytes + pageSize - 1) / pageSize := by
  have hlt : bytes + pageSize - 1 < UInt64.size := by
    simp only [pageSize] at hbytes ⊢
    omega
  rw [pagesForBytes, Nat.mod_eq_of_lt hlt]

/-- The bytes have room in the pages that are taken for them. -/
lemma le_pagesForBytes : bytes ≤ pagesForBytes bytes * pageSize := by
  rw [pagesForBytes_eq hbytes, pageSize]
  split_ifs <;> omega

/-- At least one page is taken. -/
lemma pagesForBytes_pos : 0 < pagesForBytes bytes := by
  rw [pagesForBytes_eq hbytes, pageSize]
  split_ifs <;> omega

end Pages

/-- The vectors of a container fit into the greatest number of pages, or there is only one. -/
lemma slots_mul_le {vectorLength : Nat} (hpos : 0 < vectorLength) :
    slotsPerContainer vectorLength * vectorLength ≤
      max vectorLength (maxContainerPages * pageSize) := by
  have hdiv := Nat.div_mul_le_self (maxContainerPages * pageSize) vectorLength
  rw [slotsPerContainer, if_neg (by omega)]
  rcases Nat.le_total 1 (min (maxContainerPages * pageSize / vectorLength) maxContainerSlots) with
    hone | hone
  · rw [Nat.max_eq_right hone]
    have hle := Nat.mul_le_mul_right vectorLength (Nat.min_le_left
      (maxContainerPages * pageSize / vectorLength) maxContainerSlots)
    omega
  · rw [Nat.max_eq_left hone]
    omega

/-- **A positive length has a layout that fits**, if one vector fits into the longest page run.

**Proof sketch.** A container of one vector has the pages of that vector, and a shared one has no
more pages than are allowed, so that neither count overflows. -/
theorem exists_forVectorLength? {vectorLength : Nat} (hpos : 0 < vectorLength)
    (hle : vectorLength ≤ pageSize * (UInt32.size - 1)) :
    ∃ layout, forVectorLength? vectorLength = some layout ∧ layout.vectorLength = vectorLength ∧
      layout.Fits := by
  have hslots : 0 < slotsPerContainer vectorLength := by
    rw [slotsPerContainer, if_neg (by omega)]
    omega
  have hbound : slotsPerContainer vectorLength * vectorLength ≤ pageSize * (UInt32.size - 1) := by
    have hmul := slots_mul_le hpos
    have hsize : maxContainerPages * pageSize ≤ pageSize * (UInt32.size - 1) := by decide
    omega
  have hword : slotsPerContainer vectorLength * vectorLength + pageSize ≤ UInt64.size :=
    (Nat.add_le_add_right hbound pageSize).trans (by decide)
  have hpages : pagesForBytes (slotsPerContainer vectorLength * vectorLength) < UInt32.size := by
    rw [pagesForBytes_eq hword]
    generalize slotsPerContainer vectorLength * vectorLength = bytes at hbound
    simp only [pageSize, UInt32.size] at hbound ⊢
    split_ifs <;> omega
  refine ⟨⟨vectorLength, slotsPerContainer vectorLength,
    pagesForBytes (slotsPerContainer vectorLength * vectorLength)⟩, ?_, rfl, hslots, ?_, ?_, ?_,
    hpages⟩
  · simp only [forVectorLength?, Nat.mod_eq_of_lt hpages]
    rw [if_neg (by omega)]
  · simp only [slotsPerContainer, maxContainerSlots]
    split_ifs <;> omega
  · exact le_pagesForBytes hword
  · exact pagesForBytes_pos hword

end ContainerLayout

/-! ## Containers -/

namespace Container

/-- **The vectors of a container**, with their stored forms, in slot order. -/
structure Holds (container : Container) (layout : ContainerLayout)
    (entries : List (VectorId × Bytes)) : Prop where
  ids : container.ids = entries.map Prod.fst
  size : container.run.size = layout.pages * pageSize
  length_le : entries.length ≤ layout.slots
  slot : ∀ i entry, entries[i]? = some entry →
    container.run.slice? (i * layout.vectorLength) layout.vectorLength = some entry.2

namespace Holds

variable {container : Container} {layout : ContainerLayout} {entries : List (VectorId × Bytes)}

/-- An empty container holds no vector. -/
lemma blank (layout : ContainerLayout) : (blank layout).Holds layout [] where
  ids := rfl
  size := Array.size_replicate
  length_le := Nat.zero_le _
  slot i entry h := by simp at h

/-- The number of a slot fits into a byte. -/
lemma toNat_slot (hfits : layout.Fits) {i : Nat} (hi : i < layout.slots) :
    (UInt8.ofNat i).toNat = i := by
  have hle := hfits.slots_le
  simp only [maxContainerSlots] at hle
  exact UInt8.toNat_ofNat_of_lt' (show i < 256 by omega)

/-- The record of a container can be stored. -/
lemma length_lt (h : container.Holds layout entries) (hfits : layout.Fits) :
    container.ids.length < 2 ^ 32 := by
  have hle := h.length_le
  have hslots := hfits.slots_le
  rw [h.ids, List.length_map]
  simp only [maxContainerSlots] at hslots
  omega

/-- **Reading a slot** gives the stored form of the vector in it. -/
theorem vector_eq (h : container.Holds layout entries) (hfits : layout.Fits) {i : Nat}
    {entry : VectorId × Bytes} (hentry : entries[i]? = some entry) (page : PageId) :
    container.vector layout ⟨page, UInt8.ofNat i⟩ = .ok entry.2 := by
  obtain ⟨hi, _⟩ := List.getElem?_eq_some_iff.mp hentry
  have hslot := toNat_slot hfits (Nat.lt_of_lt_of_le hi h.length_le)
  rw [Container.vector, Container.used, h.ids, List.length_map, ContainerLayout.slotOffset]
  simp only [hslot, hi, if_true, h.slot i entry hentry]

/-- **One more vector** goes into the next free slot and leaves the others where they are.

**Proof sketch.** The slot begins where the filled ones end and lies within the run. A slot before
it is read from bytes that are not overwritten. -/
theorem exists_push (h : container.Holds layout entries) (hfits : layout.Fits)
    (hroom : entries.length < layout.slots) (page : PageId) (id : VectorId) {bytes : Bytes}
    (hlength : bytes.length = layout.vectorLength) :
    ∃ next, container.push layout page id bytes =
        .ok (⟨page, UInt8.ofNat entries.length⟩, next) ∧
      next.Holds layout (entries ++ [(id, bytes)]) := by
  have hslot := toNat_slot hfits hroom
  have hwithin : entries.length * layout.vectorLength + bytes.length ≤ container.run.size := by
    have hle : (entries.length + 1) * layout.vectorLength ≤ layout.slots * layout.vectorLength :=
      Nat.mul_le_mul_right _ hroom
    have hpages := hfits.within
    rw [h.size, hlength]
    rw [Nat.add_mul] at hle
    omega
  obtain ⟨run, hwrite, hsize, _⟩ := Run.exists_overwrite? hwithin
  have hused : container.used = entries.length := by
    rw [Container.used, h.ids, List.length_map]
  refine ⟨{ ids := container.ids ++ [id], run }, ?_, ?_, hsize.trans h.size, ?_, ?_⟩
  · rw [push, if_neg (by simp [hlength]), if_neg (by omega), hused]
    simp only [ContainerLayout.slotOffset, hslot, hwrite]
  · simp [h.ids]
  · rw [List.length_append, List.length_singleton]
    omega
  · intro i entry hentry
    rcases Nat.lt_trichotomy i entries.length with hi | rfl | hi
    · rw [List.getElem?_append_left hi] at hentry
      have hle : (i + 1) * layout.vectorLength ≤ entries.length * layout.vectorLength :=
        Nat.mul_le_mul_right _ hi
      rw [Nat.add_mul, Nat.one_mul] at hle
      simp only
      rw [Run.slice?_overwrite?_of_le hwrite hle, h.slot i entry hentry]
    · rw [List.getElem?_concat_length, Option.some.injEq] at hentry
      have hread := Run.slice?_overwrite? hwrite
      rw [hlength] at hread
      rw [← hentry]
      exact hread
    · rw [List.getElem?_eq_none (by simp; omega)] at hentry
      exact absurd hentry (by simp)

/-- Reading the slots from some place on gives the rest of the list. -/
lemma vectorsFrom_drop (h : container.Holds layout entries) (hfits : layout.Fits) (page : PageId)
    (slot : Nat) :
    vectorsFrom container.run layout page slot ((entries.drop slot).map Prod.fst) =
      .ok (entries.drop slot) := by
  generalize hrest : entries.drop slot = rest
  induction rest generalizing slot with
  | nil => rfl
  | cons entry rest ih =>
    have hentry : entries[slot]? = some entry := by
      rw [← List.head?_drop, hrest, List.head?_cons]
    have hnext : entries.drop (slot + 1) = rest := by
      rw [← List.tail_drop, hrest, List.tail_cons]
    obtain ⟨hlt, _⟩ := List.getElem?_eq_some_iff.mp hentry
    have hslot := toNat_slot hfits (Nat.lt_of_lt_of_le hlt h.length_le)
    rw [List.map_cons, vectorsFrom, ContainerLayout.slotOffset, hslot, h.slot slot entry hentry]
    simp only [ih (slot + 1) hnext, Except.ok_bind, Except.pure_eq_ok]

/-- **Reading all slots** gives the whole list. -/
theorem vectorsFrom_eq (h : container.Holds layout entries) (hfits : layout.Fits) (page : PageId) :
    vectorsFrom container.run layout page 0 container.ids = .ok entries := by
  have hall := h.vectorsFrom_drop hfits page 0
  rw [List.drop_zero] at hall
  rw [h.ids, hall]

end Holds

end Container

end Proximity

import Proximity.Store.Run

set_option autoImplicit false
set_option relaxedAutoImplicit false

/-!
# Container layout

The encoded vectors of a field all have one length. They lie in containers: page runs that are cut
into equally long slots, as many as fit into the largest container and can still be numbered by a
single byte. The layout is part of the stored format.

## Main definitions

* `Proximity.ContainerLayout` — slots and pages for one vector length.
* `Proximity.slotsPerContainer` — how many slots a container has.
-/

namespace Proximity

/-- The greatest number of pages that vectors share. -/
def maxContainerPages : Nat := 32

/-- The greatest number of slots that a container has. -/
def maxContainerSlots : Nat := 255

/-- The number of slots in a container for vectors of this length: as many as fit, and one where
a single vector is too long to share. There are none for a vector without bytes. -/
def slotsPerContainer (vectorLength : Nat) : Nat :=
  if vectorLength = 0 then 0
  else max 1 (min (maxContainerPages * pageSize / vectorLength) maxContainerSlots)

/-- The geometry of the containers of one field. -/
structure ContainerLayout where
  /-- The length of an encoded vector. -/
  vectorLength : Nat
  /-- The number of slots in a container. -/
  slots : Nat
  /-- The number of pages in a container. -/
  pages : Nat
deriving DecidableEq

namespace ContainerLayout

/-- The layout for vectors of this length; the page count is kept in 32 bits. -/
def forVectorLength? (vectorLength : Nat) : Option ContainerLayout :=
  let slots := slotsPerContainer vectorLength
  if slots = 0 then none
  else some ⟨vectorLength, slots, pagesForBytes (slots * vectorLength) % UInt32.size⟩

/-- The place of a slot within its container. -/
def slotOffset (layout : ContainerLayout) (slot : UInt8) : Nat :=
  slot.toNat * layout.vectorLength

end ContainerLayout

end Proximity

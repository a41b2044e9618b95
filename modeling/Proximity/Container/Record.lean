import Proximity.Container.Layout
import Proximity.Field.Key
import Proximity.MessagePack.Storable
import Proximity.Store.Snapshot

set_option autoImplicit false
set_option relaxedAutoImplicit false

/-!
# Containers

A container is a page run cut into slots, together with the record of the vectors that lie in them.
The vectors are listed in slot order, so the record also says how many slots are taken.

## Main definitions

* `Proximity.ContainerRecord` — the vectors of a container, and the stored form of the list.
* `Proximity.SlotRef` — the place of one vector.
* `Proximity.Container` — a container with its contents.
* `Proximity.Container.vector`, `Proximity.Container.push` — reading and filling slots.
* `Proximity.Container.scan` — all vectors of a field, in the order in which they came.
-/

namespace Proximity

open MessagePack

/-! ## Records -/

/-- The vectors of a container in slot order. -/
structure ContainerRecord where
  /-- The names of the vectors. -/
  ids : List VectorId
deriving DecidableEq

/-- The place of one vector. -/
structure SlotRef where
  /-- The first page of the container. -/
  container : PageId
  /-- The number of the slot. -/
  slot : UInt8
deriving DecidableEq

namespace VectorId

/-- The item for a vector name. -/
def toItem (id : VectorId) : Item := .ofNat id.raw.toNat

/-- The vector name that an item holds; it need not be one that a caller may use. -/
def ofItem? (item : Item) : Option VectorId :=
  (item.nat? UInt64.size).map fun n => ⟨UInt64.ofNat n⟩

end VectorId

namespace PageId

/-- The item for a page number. -/
def toItem (page : PageId) : Item := .ofNat page.number.toNat

/-- The page number that an item holds. -/
def ofItem? (item : Item) : Option PageId :=
  (item.nat? UInt64.size).map fun n => ⟨UInt64.ofNat n⟩

end PageId

namespace SlotRef

/-- The item for a place. -/
def toItem (place : SlotRef) : Item :=
  .array [place.container.toItem, .ofNat place.slot.toNat]

/-- The names of the parts of a place in a map. -/
def fieldNames : List String := ["container", "slot"]

/-- The place that an item holds. -/
def ofItem? (item : Item) : Option SlotRef := do
  match ← item.fields? fieldNames with
  | [container, slot] =>
    let container ← Item.required? PageId.ofItem? container
    let slot ← Item.required? (Item.nat? UInt8.size) slot
    return { container, slot := UInt8.ofNat slot }
  | _ => none

end SlotRef

namespace ContainerRecord

/-- The item for a container record. -/
def toItem (record : ContainerRecord) : Item :=
  .array [.array (record.ids.map VectorId.toItem)]

/-- The names of the parts of a container record in a map. -/
def fieldNames : List String := ["ids"]

/-- The container record that an item holds. -/
def ofItem? (item : Item) : Option ContainerRecord := do
  match ← item.fields? fieldNames with
  | [ids] =>
    let ids ← Item.required? (Item.numbers? VectorId.ofItem?) ids
    return { ids }
  | _ => none

/-- A container record is stored as its item. -/
instance : Storable ContainerRecord where
  toItem := toItem
  ofItem? := ofItem?
  kind := "container record"

end ContainerRecord

/-! ## Contents -/

/-- A container with its contents. -/
structure Container where
  /-- The vectors in slot order. -/
  ids : List VectorId
  /-- The page run. -/
  run : Run

namespace Container

/-- A container without vectors. -/
def blank (layout : ContainerLayout) : Container where
  ids := []
  run := Run.blank layout.pages

/-- The number of slots that are taken. -/
def used (container : Container) : Nat :=
  container.ids.length

/-- The record of a container. -/
def record (container : Container) : ContainerRecord :=
  ⟨container.ids⟩

/-- The container with this stored record at this page. -/
def ofStored (view : Snapshot) (page : PageId) (stored : Bytes) : Except IndexError Container := do
  let record : ContainerRecord ← decode stored
  match view.run page with
  | .ok run => return { ids := record.ids, run }
  | .error cause => throw (.storage cause)

/-- The bytes in a slot that is taken. -/
def vector (container : Container) (layout : ContainerLayout) (place : SlotRef) :
    Except IndexError Bytes :=
  if place.slot.toNat < container.used then
    match container.run.slice? (layout.slotOffset place.slot) layout.vectorLength with
    | some bytes => .ok bytes
    | none => .error (.slotOutsideRun place.container place.slot.toNat)
  else .error (.inconsistent (.vacantSlot place.slot place.container))

/-- A container at `page` with one more vector in its next free slot, and that slot. -/
def push (container : Container) (layout : ContainerLayout) (page : PageId) (id : VectorId)
    (bytes : Bytes) : Except IndexError (SlotRef × Container) :=
  if bytes.length ≠ layout.vectorLength then
    .error (.dimensionMismatch layout.vectorLength bytes.length)
  else if layout.slots ≤ container.used then
    .error (.inconsistent (.fullContainer page layout.slots))
  else
    let slot := UInt8.ofNat container.used
    match container.run.overwrite? (layout.slotOffset slot) bytes with
    | some run => .ok (⟨page, slot⟩, { ids := container.ids ++ [id], run })
    | none => .error (.slotOutsideRun page slot.toNat)

/-! ## All vectors of a field -/

/-- The vectors of a container from slot `slot` on; slot numbers are kept in one byte. -/
def vectorsFrom (run : Run) (layout : ContainerLayout) (page : PageId) (slot : Nat) :
    List VectorId → Except IndexError (List (VectorId × Bytes))
  | [] => .ok []
  | id :: ids =>
    match run.slice? (layout.slotOffset (UInt8.ofNat slot)) layout.vectorLength with
    | none => .error (.slotOutsideRun page (slot % 256))
    | some bytes => do
      let others ← vectorsFrom run layout page (slot + 1) ids
      return (id, bytes) :: others

/-- The vectors of the container whose record stands under this key. -/
def vectorsOfEntry (view : Snapshot) (field : String) (layout : ContainerLayout)
    (entry : Bytes × Bytes) : Except IndexError (List (VectorId × Bytes)) := do
  let part := (Bytes.after? (RecordKey.containerStem field) entry.1).getD []
  match RecordKey.number? part with
  | none => throw (.inconsistent .malformedContainerKey)
  | some number =>
    let container ← ofStored view ⟨number⟩ entry.2
    vectorsFrom container.run layout ⟨number⟩ 0 container.ids

/-- All vectors of a field: containers in the order in which they were handed out, and slots in the
order in which they were filled. -/
def scan (view : Snapshot) (field : String) (layout : ContainerLayout) :
    Except IndexError (List (VectorId × Bytes)) := do
  let parts ← (view.scan (RecordKey.containerStem field)).mapM (vectorsOfEntry view field layout)
  return parts.flatten

end Container

end Proximity

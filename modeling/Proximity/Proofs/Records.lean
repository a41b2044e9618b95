import Proximity.Field.Record
import Proximity.Graph.Record
import Proximity.Proofs.MessagePack

set_option relaxedAutoImplicit false
set_option autoImplicit false

/-!
# Records read back

Every record of a field is read back from its stored form, if its numbers and lengths are within
their machine types. Names of vectors and pages always are.

## Main definitions

* `Proximity.ContainerRecord.Fits`, `Proximity.NodeRecord.Fits`, `Proximity.GraphHeader.Fits`,
  `Proximity.FieldRecord.Fits` — what the stored form of a record can hold.

## Main results

* `Proximity.ContainerRecord.decode_encode`, `Proximity.NodeRecord.decode_encode`,
  `Proximity.GraphHeader.decode_encode`, `Proximity.FieldRecord.decode_encode` — reading back.
-/

namespace Proximity

open MessagePack

namespace MessagePack.Item

variable {α : Type}

/-! ## Parts of records -/

/-- A number of 64 bits can be written. -/
lemma fits_ofNat {n : Nat} (h : n < 2 ^ 64) (depth : Nat) : (ofNat n).Fits depth := by
  cases depth <;> exact h

/-- A text of fewer than `2 ^ 32` bytes can be written. -/
lemma fits_ofText {text : String} (h : text.utf8ByteSize < 2 ^ 32) (depth : Nat) :
    (ofText text).Fits depth := by
  rw [← Bytes.length_ofText] at h
  cases depth <;> exact h

/-- A value that may be absent can be written if it can when it is there. -/
lemma fits_ofOption {item : α → Item} {depth : Nat} (h : ∀ a, (item a).Fits depth)
    (value : Option α) : (ofOption item value).Fits depth := by
  cases value with
  | none => cases depth <;> trivial
  | some a => exact h a

/-- A list of fewer than `2 ^ 32` items that can be written can be written. -/
lemma fits_array {depth : Nat} {items : List Item} (hlen : items.length < 2 ^ 32)
    (h : ∀ item ∈ items, item.Fits depth) : (Item.array items).Fits (depth + 1) :=
  ⟨hlen, h⟩

/-- A number within its range is read from its item. -/
@[simp]
lemma nat?_ofNat {bound n : Nat} (h : n < bound) : (ofNat n).nat? bound = some n := by
  simp [ofNat, nat?, h]

/-- A text is read from its item. -/
@[simp]
lemma text?_ofText (text : String) : (ofText text).text? = some text := by
  simp [ofText, text?, bytes?, Bytes.toText?_ofText]

/-- Values that are each read from their items are read from all of them. -/
lemma mapM_map {item : α → Item} {value? : Item → Option α}
    (h : ∀ a, value? (item a) = some a) (list : List α) :
    (list.map item).mapM value? = some list := by
  induction list with
  | nil => rfl
  | cons a list ih => simp [List.mapM_cons, h, ih]

/-- A list whose members are read from their items is read from its item. -/
lemma list?_map {item : α → Item} {value? : Item → Option α}
    (h : ∀ a, value? (item a) = some a) (list : List α) :
    (Item.array (list.map item)).list? value? = some list :=
  mapM_map h list

/-- A list whose members are read from their items is read from its item as a list of numbers. -/
lemma numbers?_map {item : α → Item} {value? : Item → Option α}
    (h : ∀ a, value? (item a) = some a) (list : List α) :
    (Item.array (list.map item)).numbers? value? = some list :=
  mapM_map h list

end MessagePack.Item

namespace VectorId

/-- The name of a vector can be written. -/
lemma fits_toItem (id : VectorId) (depth : Nat) : id.toItem.Fits depth :=
  Item.fits_ofNat id.raw.toNat_lt depth

/-- The name of a vector is read from its item. -/
@[simp]
lemma ofItem?_toItem (id : VectorId) : ofItem? id.toItem = some id := by
  simp [ofItem?, toItem, id.raw.toNat_lt]

end VectorId

namespace PageId

/-- A page can be written. -/
lemma fits_toItem (page : PageId) (depth : Nat) : page.toItem.Fits depth :=
  Item.fits_ofNat page.number.toNat_lt depth

/-- A page is read from its item. -/
@[simp]
lemma ofItem?_toItem (page : PageId) : ofItem? page.toItem = some page := by
  simp [ofItem?, toItem, page.number.toNat_lt]

end PageId

/-- What an optional name is read back as. -/
lemma MessagePack.Item.option?_ofOption_vectorId (id : Option VectorId) :
    Item.option? VectorId.ofItem? (.ofOption VectorId.toItem id) = some id := by
  cases id with
  | none => rfl
  | some id => exact congrArg (Option.map some) (VectorId.ofItem?_toItem id)

/-- A page that may be absent is read from its item. -/
lemma MessagePack.Item.option?_ofOption_pageId (page : Option PageId) :
    Item.option? PageId.ofItem? (.ofOption PageId.toItem page) = some page := by
  cases page with
  | none => rfl
  | some page => exact congrArg (Option.map some) (PageId.ofItem?_toItem page)

namespace SlotRef

/-- A place in a container can be written. -/
lemma fits_toItem (place : SlotRef) (depth : Nat) : place.toItem.Fits (depth + 1) := by
  refine Item.fits_array (by simp) fun item hitem => ?_
  simp only [List.mem_cons, List.not_mem_nil, or_false] at hitem
  rcases hitem with rfl | rfl
  · exact place.container.fits_toItem depth
  · have hslot := place.slot.toNat_lt
    exact Item.fits_ofNat (by omega) depth

/-- A place in a container is read from its item. -/
@[simp]
lemma ofItem?_toItem (place : SlotRef) : ofItem? place.toItem = some place := by
  have hslot := place.slot.toNat_lt
  simp [ofItem?, toItem, Item.fields?, fieldNames, Item.required?, hslot]

end SlotRef

/-! ## Container records -/

namespace ContainerRecord

/-- What the stored form of a container record can hold. -/
def Fits (record : ContainerRecord) : Prop :=
  record.ids.length < 2 ^ 32

/-- A container record within the limits is read back. -/
lemma decode_encode {record : ContainerRecord} (h : record.Fits) :
    decode (encode record) = .ok record := by
  apply MessagePack.decode_encode
  · refine Item.fits_array (by simp) fun item hitem => ?_
    obtain rfl := List.mem_singleton.mp hitem
    refine Item.fits_array (by rw [List.length_map]; exact h) fun item hitem => ?_
    obtain ⟨id, _, rfl⟩ := List.mem_map.mp hitem
    exact id.fits_toItem _
  · simp [Storable.ofItem?, Storable.toItem, ofItem?, toItem, Item.fields?, fieldNames,
      Item.required?, Item.numbers?_map VectorId.ofItem?_toItem]

end ContainerRecord

/-! ## Nodes -/

namespace NodeRecord

/-- What the stored form of a node can hold. -/
structure Fits (node : NodeRecord) : Prop where
  level : node.level < 2 ^ 64
  layers : node.neighbors.length < 2 ^ 32
  lists : ∀ list ∈ node.neighbors, list.length < 2 ^ 32
  parents : node.parents.length < 2 ^ 32

/-- A node within the limits is read back.

**Proof sketch.** The items of the record are within the format, and reading them gives the record
again. -/
lemma decode_encode {node : NodeRecord} (h : node.Fits) : decode (encode node) = .ok node := by
  apply MessagePack.decode_encode
  · refine Item.fits_array (by simp) fun item hitem => ?_
    simp only [List.mem_cons, List.not_mem_nil, or_false] at hitem
    rcases hitem with rfl | rfl | rfl | rfl
    · exact Item.fits_ofNat h.level _
    · exact node.location.fits_toItem _
    · refine Item.fits_array (by simpa using h.layers) fun item hitem => ?_
      obtain ⟨list, hlist, rfl⟩ := List.mem_map.mp hitem
      refine Item.fits_array (by simpa using h.lists list hlist) fun item hitem => ?_
      obtain ⟨id, _, rfl⟩ := List.mem_map.mp hitem
      exact id.fits_toItem _
    · refine Item.fits_array (by simpa using h.parents) fun item hitem => ?_
      obtain ⟨parent, _, rfl⟩ := List.mem_map.mp hitem
      exact Item.fits_ofOption (fun id => id.fits_toItem _) parent
  · have hneighbors := Item.list?_map (Item.numbers?_map VectorId.ofItem?_toItem) node.neighbors
    have hparents := Item.list?_map Item.option?_ofOption_vectorId node.parents
    have hlevel : node.level < UInt64.size := h.level
    simp [Storable.ofItem?, Storable.toItem, ofItem?, toItem, Item.fields?, fieldNames,
      Item.required?, hneighbors, hparents, hlevel]

end NodeRecord

/-! ## Graph headers -/

namespace GraphHeader

/-- What the stored form of a graph header can hold. -/
structure Fits (header : GraphHeader) : Prop where
  maxLevel : header.maxLevel < 2 ^ 64
  nodeCount : header.nodeCount < 2 ^ 64
  rawLength : header.rawLength < 2 ^ 64
  vectorLength : header.vectorLength < 2 ^ 64

/-- A graph header within the limits is read back. -/
lemma decode_encode {header : GraphHeader} (h : header.Fits) :
    decode (encode header) = .ok header := by
  apply MessagePack.decode_encode
  · refine Item.fits_array (by simp) fun item hitem => ?_
    simp only [List.mem_cons, List.not_mem_nil, or_false] at hitem
    rcases hitem with rfl | rfl | rfl | rfl | rfl | rfl
    · exact Item.fits_ofOption (fun id => id.fits_toItem _) _
    · exact Item.fits_ofNat h.maxLevel _
    · exact Item.fits_ofNat h.nodeCount _
    · exact Item.fits_ofNat h.rawLength _
    · exact Item.fits_ofNat h.vectorLength _
    · exact Item.fits_ofOption (fun page => page.fits_toItem _) _
  · have hlevel : header.maxLevel < UInt64.size := h.maxLevel
    have hcount : header.nodeCount < UInt64.size := h.nodeCount
    have hraw : header.rawLength < UInt64.size := h.rawLength
    have hvector : header.vectorLength < UInt64.size := h.vectorLength
    simp [Storable.ofItem?, Storable.toItem, ofItem?, toItem, Item.fields?, fieldNames,
      Item.required?, Item.optional?, Item.option?_ofOption_vectorId,
      Item.option?_ofOption_pageId, hlevel, hcount, hraw, hvector]

end GraphHeader

/-! ## Field definitions -/

/-- A precision is found by its name. -/
@[simp]
lemma Precision.choice?_name (precision : Precision) :
    Item.choice? Precision.all Precision.name (.ofText precision.name) = some precision := by
  cases precision <;> decide

/-- A metric is found by its name. -/
@[simp]
lemma Metric.choice?_name (metric : Metric) :
    Item.choice? Metric.all Metric.name (.ofText metric.name) = some metric := by
  cases metric <;> decide

namespace FieldOptions

/-- What the stored form of field options can hold. -/
structure Fits (options : FieldOptions) : Prop where
  edges : options.edges < 2 ^ 64
  candidates : options.candidates < 2 ^ 64
  vectorBytes : options.vectorBytes < 2 ^ 64

/-- Options within the limits can be written. -/
lemma fits_toItem {options : FieldOptions} (h : options.Fits) (depth : Nat) :
    options.toItem.Fits (depth + 1) := by
  refine Item.fits_array (by simp) fun item hitem => ?_
  simp only [List.mem_cons, List.not_mem_nil, or_false] at hitem
  rcases hitem with rfl | rfl | rfl | rfl | rfl | rfl
  · exact Item.fits_ofNat h.edges _
  · exact Item.fits_ofNat h.candidates _
  · exact Item.fits_ofText (by cases options.source <;> decide) _
  · exact Item.fits_ofText (by cases options.destination <;> decide) _
  · exact Item.fits_ofText (by cases options.metric <;> decide) _
  · exact Item.fits_ofNat h.vectorBytes _

/-- Options within the limits are read from their item. -/
lemma ofItem?_toItem {options : FieldOptions} (h : options.Fits) :
    ofItem? options.toItem = some options := by
  have hedges : options.edges < UInt64.size := h.edges
  have hcandidates : options.candidates < UInt64.size := h.candidates
  have hbytes : options.vectorBytes < UInt64.size := h.vectorBytes
  simp [ofItem?, toItem, Item.fields?, fieldNames, Item.required?, hedges, hcandidates, hbytes]

end FieldOptions

namespace FieldRecord

/-- What the stored form of a field definition can hold. -/
structure Fits (record : FieldRecord) : Prop where
  name : record.name.utf8ByteSize < 2 ^ 32
  options : record.options.Fits
  createdVersion : record.createdVersion < 2 ^ 64

/-- A field definition within the limits is read back. -/
theorem decode_encode {record : FieldRecord} (h : record.Fits) :
    decode (encode record) = .ok record := by
  apply MessagePack.decode_encode
  · refine Item.fits_array (by simp) fun item hitem => ?_
    simp only [List.mem_cons, List.not_mem_nil, or_false] at hitem
    rcases hitem with rfl | rfl | rfl
    · exact Item.fits_ofText h.name _
    · exact FieldOptions.fits_toItem h.options _
    · exact Item.fits_ofNat h.createdVersion _
  · have hversion : record.createdVersion < UInt64.size := h.createdVersion
    simp [Storable.ofItem?, Storable.toItem, ofItem?, toItem, Item.fields?, fieldNames,
      Item.required?, FieldOptions.ofItem?_toItem h.options, hversion]

end FieldRecord

end Proximity

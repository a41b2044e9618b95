import Proximity.Proofs.Damage.Registering
import Proximity.Proofs.Index.Persistence
import Proximity.Proofs.Registration.Resemblance

set_option relaxedAutoImplicit false
set_option autoImplicit false

/-!
# How densely the vectors of a field lie

The containers of a field are as few as its vectors allow. All but the last of them are full, in the
order of their pages, and the header remembers the last one as the open one. A scan of the container
records therefore meets the vectors in the order in which the field has accepted them, whatever
other fields have allocated in between and whatever sessions have been discarded.

## Main definitions

* `Proximity.Snapshot.Packs` — the containers of a field hold some vectors densely.

## Main results

* `Proximity.GraphContents.Shelved.length_eq` — how many containers there are.
* `Proximity.Snapshot.Sound.exists_packs` — a field with vectors holds them densely.
* `Proximity.Index.Reachable.densely_packed` — so it does in every state that can be reached.
-/

namespace Proximity

open MessagePack

/-! ## Full containers and one more -/

/-- The number of parts of length `slots`, all but the last of them full. -/
lemma succ_eq_ceil_div {slots count rest : Nat} (hpos : 0 < rest) (hle : rest ≤ slots) :
    count + 1 = (slots * count + rest + slots - 1) / slots := by
  have hslots : 0 < slots := Nat.lt_of_lt_of_le hpos hle
  have hone : (rest + slots - 1) / slots = 1 :=
    Nat.div_eq_of_lt_le (by omega) (by omega)
  have hsum : slots * count + rest + slots - 1 = slots * count + (rest + slots - 1) := by omega
  rw [hsum, Nat.mul_add_div hslots, hone]

namespace GraphContents.Shelved

variable {contents : GraphContents} {layout : ContainerLayout} {shelves : List Shelf}

/-- No container holds more vectors than it has slots. -/
lemma length_le (h : contents.Shelved layout shelves) {shelf : Shelf} (hshelf : shelf ∈ shelves) :
    shelf.vectors.length ≤ layout.slots := by
  obtain ⟨container, _, hholds⟩ := h.holds shelf hshelf
  have hle := hholds.length_le
  rwa [List.length_map] at hle

/-- **There are no more containers than the vectors need.** -/
theorem length_eq (h : contents.Shelved layout shelves) (hne : shelves ≠ []) :
    shelves.length =
      ((shelves.flatMap Shelf.vectors).length + layout.slots - 1) / layout.slots := by
  obtain ⟨before, last, rfl⟩ := (List.eq_nil_or_concat' shelves).resolve_left hne
  have hlast : last ∈ before ++ [last] := List.mem_append_right _ (List.mem_singleton_self _)
  have hfull : ∀ shelf ∈ before, shelf.vectors.length = layout.slots := fun shelf hshelf =>
    h.full shelf (by rwa [List.dropLast_concat])
  rw [List.flatMap_append, List.length_append, List.length_append,
    Registration.length_flatMap_of_full hfull, List.length_singleton, List.flatMap_singleton]
  exact succ_eq_ceil_div (List.length_pos_iff.mpr (h.nonempty last hlast)) (h.length_le hlast)

end GraphContents.Shelved

/-! ## Container records -/

/-- The page and the record of a container. -/
def Shelf.record (shelf : Shelf) : PageId × ContainerRecord :=
  (shelf.page, ⟨shelf.vectors.map Accepted.id⟩)

namespace Snapshot

/-- **The containers of a field hold some vectors densely**, in their order. They are listed by the
number of the first page and the record. -/
structure Packs (view : Snapshot) (name : String) (vectors : List Accepted) (header : GraphHeader)
    (containers : List (PageId × ContainerRecord)) : Prop where
  found : GraphHeader.find view name = .ok header
  vectorLength : ∀ vector ∈ vectors, vector.stored.length = header.vectorLength
  /-- The containers come in the order of their pages. -/
  ascending : containers.Pairwise fun a b => a.1.number < b.1.number
  /-- The field has a record for each of them, and no other. -/
  keys : (view.scan (RecordKey.containerStem name)).map Prod.fst =
    containers.map fun container => (RecordKey.container name container.1).bytes
  records : ∀ container ∈ containers, view.HasContainer name container.1 container.2
  /-- There are as many of them as the vectors need. -/
  count : containers.length =
    (vectors.length + slotsPerContainer header.vectorLength - 1) /
      slotsPerContainer header.vectorLength
  full : ∀ container ∈ containers.dropLast,
    container.2.ids.length = slotsPerContainer header.vectorLength
  last : ∀ container ∈ containers.getLast?,
    0 < container.2.ids.length ∧ container.2.ids.length ≤ slotsPerContainer header.vectorLength
  /-- The last container is the open one. -/
  opened : header.openContainer = containers.getLast?.map Prod.fst
  listed : (containers.flatMap fun container => container.2.ids) = vectors.map Accepted.id
  nodup : (vectors.map Accepted.id).Nodup
  /-- A scan visits the vectors in their order. -/
  scanned : ∃ layout, ContainerLayout.forVectorLength? header.vectorLength = some layout ∧
    Container.scan view name layout = .ok (vectors.map Accepted.entry)

variable {view : Snapshot} {ledger : Ledger} {name : String} {field : FieldRecord}

/-- **A field with vectors holds them densely**: the containers are those of its graph.

**Proof sketch.** The shelves of the graph are its containers. All but the last are full, and their
sizes follow from the layout. -/
theorem Sound.exists_packs (h : view.Sound ledger) (hfind : Catalog.find view name = .ok field)
    (hne : ledger name ≠ []) : ∃ header containers,
      view.Packs name (ledger name) header containers ∧ containers ≠ [] := by
  obtain ⟨contents, hholds, hsound, _⟩ := h.graph name field hfind
  obtain ⟨layout, shelves, hshelved, _, hledger, hfixed⟩ := hsound.shelved
  obtain ⟨hlayout, _, _⟩ := hfixed hne
  obtain ⟨hslots, _⟩ := ContainerLayout.slots_of_forVectorLength? hlayout
  have hshelves : shelves ≠ [] := by
    rintro rfl
    exact hne hledger.symm
  have hids : ∀ shelf : Shelf, shelf.record.2.ids.length = shelf.vectors.length := fun shelf =>
    List.length_map _
  refine ⟨contents.header, shelves.map Shelf.record, ?_, mt List.map_eq_nil_iff.mp hshelves⟩
  exact {
    found := hholds.header
    vectorLength := hsound.storedLength
    ascending := List.pairwise_map.mpr hshelved.ascending
    keys := by
      rw [h.scan_containerStem hfind hholds hshelved, List.map_map, List.map_map]
      rfl
    records := by
      intro entry hentry
      obtain ⟨shelf, hshelf, rfl⟩ := List.mem_map.mp hentry
      obtain ⟨container, hcontainer, hentries⟩ := hshelved.holds shelf hshelf
      have hrecord : container.record = shelf.record.2 := by
        rw [Container.record, hentries.ids, List.map_map]
        rfl
      exact hrecord ▸ hholds.hasContainer hcontainer
    count := by rw [List.length_map, ← hslots, ← hledger, hshelved.length_eq hshelves]
    full := by
      intro entry hentry
      rw [← List.map_dropLast] at hentry
      obtain ⟨shelf, hshelf, rfl⟩ := List.mem_map.mp hentry
      rw [hids, hshelved.full shelf hshelf, hslots]
    last := by
      intro entry hentry
      rw [List.getLast?_map] at hentry
      obtain ⟨shelf, hlast, rfl⟩ := Option.map_eq_some_iff.mp hentry
      have hshelf := List.mem_of_getLast? hlast
      rw [hids, ← hslots]
      exact ⟨List.length_pos_iff.mpr (hshelved.nonempty shelf hshelf), hshelved.length_le hshelf⟩
    opened := by
      rw [hshelved.opened, List.getLast?_map, Option.map_map]
      rfl
    listed := by rw [← hledger, List.flatMap_map, List.map_flatMap]; rfl
    nodup := hsound.nodup
    scanned := h.exists_scan hfind hholds hsound hne }

end Snapshot

namespace Index.Reachable

variable {allowed : Operation → Prop} {index : Index} {view : Snapshot} {ledger : Ledger}
  {name : String} {field : FieldRecord}

/-- **A field with vectors holds them densely** in every state that can be reached, as any
transaction sees it: it has as many containers as its vectors need, each of them is full but the one
with the greatest page number, which is the open one and not empty, and a scan visits every vector
once, in the order in which the sessions that were committed have accepted them. -/
theorem densely_packed (h : Reachable allowed index) (hsees : index.Sees view ledger)
    (hfind : Catalog.find view name = .ok field) (hne : ledger name ≠ []) :
    ∃ header containers, view.Packs name (ledger name) header containers ∧ containers ≠ [] :=
  (h.sound_view hsees).exists_packs hfind hne

/-- Two vectors that have come in different transactions lie in one container. -/
theorem densely_packed_growing : ∃ (view : Snapshot) (header : GraphHeader) (page : PageId)
    (record : ContainerRecord), view.Packs "v" [.zero, .one] header [(page, record)] ∧
      record.ids = [⟨1⟩, ⟨2⟩] ∧ header.openContainer = some page := by
  obtain ⟨_, later, field, hreachable, hleads, _, hfind, _, _, hafter⟩ :=
    @exists_growing (some 0) (by decide)
  obtain ⟨header, containers, hpacks, hsome⟩ :=
    (hleads.reachable hreachable).densely_packed .reader hfind (by rw [hafter]; exact nofun)
  rw [hafter] at hpacks
  have hlength : header.vectorLength = 4 := (hpacks.vectorLength .zero (by simp)).symm
  have hcount : containers.length = 1 := by
    rw [hpacks.count, hlength]
    decide
  obtain ⟨⟨page, record⟩, rfl⟩ := List.length_eq_one_iff.mp hcount
  have hlisted := hpacks.listed
  rw [List.flatMap_singleton] at hlisted
  exact ⟨_, header, page, record, hpacks, hlisted, hpacks.opened⟩

end Index.Reachable

end Proximity

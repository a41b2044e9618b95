import Proximity.Proofs.Graph.Failures
import Proximity.Proofs.Graph.Storage
import Proximity.Proofs.Index.Lengths
import Proximity.Search.Nearest

set_option relaxedAutoImplicit false
set_option autoImplicit false

/-!
# Searching damaged records

The records of a field may be anything: they are read with care, and whatever is missing, cannot be
read or contradicts another record is reported. Two things are not checked. One is the length of a
page run against the slots that are read from it: a search leaves the run of a container if the
container can be read and its run is too short for one of the slots that the container lists, and if
nothing else stands in its way. The other one does not depend on the records: the exact search asks
for room for as many candidates as it is to keep, and breaks down if there cannot be so much.

## Main definitions

* `Proximity.IndexError.Reports` — an error that is no breakdown.
* `Proximity.IndexError.Overruns` — an access outside a run.
* `Proximity.Snapshot.Reads` — the containers of a field that can be read.
* `Proximity.Snapshot.CutShort` — a container whose run is too short for a slot.
* `Proximity.Snapshot.Overasks` — a search that asks for more room than there can be.

## Main results

* `Proximity.FieldGraph.failsBy_of_load` — looking up vectors in a graph.
* `Proximity.Search.ends_exactIn`, `Proximity.Search.ends_approximateIn` — searching.
* `Proximity.Search.exists_overrun` — a search that leaves a run.
* `Proximity.Search.exactIn_eq_roomOverflow` — a search that asks for more room than there can be.
-/

namespace Proximity

open MessagePack

/-! ## Reports and overruns -/

/-- An operation leaves the run of a container at a slot. -/
def IndexError.Overruns (e : IndexError) (page : PageId) (slot : Nat) : Prop :=
  e.rootCause = .slotOutsideRun page slot

/-- Whether an operation breaks down: it leaves the run of a container, or it asks for more room
than there can be. -/
def IndexError.isBreakdown (e : IndexError) : Bool :=
  match e.rootCause with
  | .slotOutsideRun _ _ | .roomOverflow _ => true
  | _ => false

/-- An error is a report: the operation has not broken down. -/
def IndexError.Reports (e : IndexError) : Prop :=
  e.isBreakdown = false

/-- A container of a field can be read at a page. -/
def Snapshot.Reads (view : Snapshot) (name : String) (page : PageId) (container : Container) :
    Prop :=
  (view.get? (RecordKey.container name page).bytes).map (Container.ofStored view page) =
    some (.ok container)

/-- **A container of a field is cut short**: it can be read, and its run is too short for one of the
slots that it lists, or of the first `slots`, if all of them have the same length. -/
def Snapshot.CutShort (view : Snapshot) (name : String) (length slots : Nat) (page : PageId)
    (slot : Nat) : Prop :=
  ∃ container, view.Reads name page container ∧ slot < max container.used slots ∧
    container.run.size < (slot + 1) * length ∧ slot < 256

/-- What cannot be decoded is reported. -/
lemma reports_decode {α : Type} [Storable α] (bytes : Bytes) :
    (decode bytes : Except IndexError α).Ends IndexError.Reports fun _ => True := by
  unfold decode
  split
  · exact .ok trivial
  · exact .error rfl

/-- A definition that is missing or cannot be decoded is reported. -/
lemma Catalog.ends_find (view : Snapshot) (name : String) :
    (find view name).Ends IndexError.Reports fun _ => True := by
  unfold find
  split
  · exact reports_decode _
  · exact .error rfl

/-- A header that cannot be decoded is reported. -/
lemma GraphHeader.ends_find (view : Snapshot) (name : String) :
    (find view name).Ends IndexError.Reports fun _ => True := by
  unfold find
  split
  · exact reports_decode _
  · exact .ok trivial

/-! ## Slots -/

namespace Container

variable {container : Container} {layout : ContainerLayout}

/-- What cannot be read of a container is reported. -/
lemma ends_ofStored (view : Snapshot) (page : PageId) (stored : Bytes) :
    (ofStored view page stored).Ends IndexError.Reports fun _ => True := by
  refine (reports_decode stored).bind fun record _ => ?_
  split
  · exact .ok trivial
  · exact .error rfl

/-- A slot that is read lies outside its run only if the run is too short for it.

**Proof sketch.** The slot is checked against the number of vectors before the run is read. -/
lemma ends_vector (container : Container) (layout : ContainerLayout) (place : SlotRef) :
    (container.vector layout place).Ends (fun e => e.Reports ∨ ∃ slot,
      e.Overruns place.container slot ∧ slot < container.used ∧
        container.run.size < (slot + 1) * layout.vectorLength ∧ slot < 256) fun _ => True := by
  unfold vector
  split
  · next hused =>
    split
    · exact .ok trivial
    · next hslice =>
      refine .error (.inr ⟨place.slot.toNat, rfl, hused, ?_, place.slot.toNat_lt⟩)
      unfold Run.slice? at hslice
      split at hslice
      · cases hslice
      · next hlt =>
        rw [ContainerLayout.slotOffset] at hlt
        rw [Nat.add_mul, Nat.one_mul]
        omega
  · exact .error (.inl rfl)

/-- **Reading the slots of a container** ends at the first one for which the run is too short, if
there is one.

**Proof sketch.** Induction on the ids. The slot that is read has the number of the id in one byte,
so that it may be one that has been read before. -/
theorem ends_vectorsFrom (run : Run) (layout : ContainerLayout) (page : PageId) (first : Nat)
    (ids : List VectorId) :
    (vectorsFrom run layout page first ids).Ends (fun e => ∃ slot, e = .slotOutsideRun page slot ∧
      slot < first + ids.length ∧ run.size < (slot + 1) * layout.vectorLength ∧ slot < 256)
      fun _ => ∀ slot, first ≤ slot → slot < first + ids.length → slot < 256 →
        (slot + 1) * layout.vectorLength ≤ run.size := by
  induction ids generalizing first with
  | nil => exact .ok fun slot hle hlt => absurd hlt (Nat.not_lt.mpr hle)
  | cons id ids ih =>
    have hbyte : (UInt8.ofNat first).toNat = first % 256 := UInt8.toNat_ofNat'
    rw [vectorsFrom, ContainerLayout.slotOffset, hbyte, List.length_cons]
    split
    · next hslice =>
      have hshort : run.size < first % 256 * layout.vectorLength + layout.vectorLength := by
        by_contra hfits
        rw [Run.slice?, if_pos (Nat.le_of_not_lt hfits)] at hslice
        cases hslice
      refine .error ⟨first % 256, rfl, ?_, ?_, Nat.mod_lt _ (by decide)⟩
      · have hle := Nat.mod_le first 256
        omega
      · rwa [Nat.add_mul, Nat.one_mul]
    · next bytes hslice =>
      have hfits : first % 256 * layout.vectorLength + layout.vectorLength ≤ run.size := by
        by_contra hfits
        rw [Run.slice?, if_neg hfits] at hslice
        cases hslice
      have hrest := ih (first + 1)
      rw [show first + 1 + ids.length = first + (ids.length + 1) by omega] at hrest
      refine hrest.bind fun others hall => .ok fun slot hle hlt hbound => ?_
      rcases Nat.eq_or_lt_of_le hle with rfl | hlater
      · rw [Nat.mod_eq_of_lt hbound] at hfits
        rwa [Nat.add_mul, Nat.one_mul]
      · exact hall slot hlater hlt hbound

end Container

/-! ## Searching -/

variable {view : Snapshot} {name : String} {page : PageId} {slot : Nat}

/-- The error of a search is a report, or it blames a container of the field that is cut short for
the vectors that its header describes. -/
def Snapshot.Blames (view : Snapshot) (name : String) (e : IndexError) : Prop :=
  e.Reports ∨ ∃ page slot header, e.Overruns page slot ∧
    GraphHeader.find view name = .ok header ∧ view.CutShort name header.vectorLength 0 page slot

/-- **A search asks for more room than there can be**: there are to be vectors according to the
header of the field, and there cannot be room for `count` of them and for one more. -/
def Snapshot.Overasks (view : Snapshot) (name : String) (count : Nat) (e : IndexError) : Prop :=
  ∃ header, GraphHeader.find view name = .ok header ∧ 0 < header.nodeCount ∧
    0 < header.vectorLength ∧ Search.maxRoom < (count + 1) % UInt64.size ∧
    e = .roomOverflow ((count + 1) % UInt64.size)

/-- A report blames nothing. -/
lemma Snapshot.blames_of_reports {e : IndexError} (h : e.Reports) : view.Blames name e :=
  .inl h

/-- There is a layout for positive lengths only. -/
lemma ContainerLayout.pos_of_forVectorLength? {length : Nat} {layout : ContainerLayout}
    (h : forVectorLength? length = some layout) : 0 < length := by
  refine Nat.pos_of_ne_zero ?_
  rintro rfl
  cases h

/-- There is a layout for every positive length. -/
lemma ContainerLayout.exists_of_pos {length : Nat} (hpos : 0 < length) :
    ∃ layout, forVectorLength? length = some layout := by
  have hslots : slotsPerContainer length ≠ 0 := by
    rw [slotsPerContainer, if_neg (Nat.ne_of_gt hpos)]
    omega
  exact ⟨_, by rw [forVectorLength?, if_neg hslots]⟩

/-- The entry of a container that can be read leads to its slots. -/
lemma Container.vectorsOfEntry_of_ofStored {stored : Bytes} {container : Container}
    (hread : ofStored view page stored = .ok container) (layout : ContainerLayout) :
    vectorsOfEntry view name layout ((RecordKey.container name page).bytes, stored) =
      vectorsFrom container.run layout page 0 container.ids := by
  have hnumber : RecordKey.number? ((Bytes.after? (RecordKey.containerStem name)
      (RecordKey.container name page).bytes).getD []) = some page.number := by
    rw [RecordKey.bytes, Bytes.after?_append, Option.getD_some, RecordKey.number?_bigEndian]
  simp only [vectorsOfEntry, hnumber, hread, Except.ok_bind]

/-- A container that a scan leads to can be read in the field. -/
lemma Snapshot.reads_of_mem_scan {key stored : Bytes} {number : UInt64} {container : Container}
    (hmem : (key, stored) ∈ view.scan (RecordKey.containerStem name))
    (hnumber : RecordKey.number? ((Bytes.after? (RecordKey.containerStem name) key).getD []) =
      some number)
    (hread : Container.ofStored view ⟨number⟩ stored = .ok container) :
    view.Reads name ⟨number⟩ container := by
  obtain ⟨hget, hstarts⟩ := Snapshot.mem_scan_iff.mp hmem
  obtain ⟨part, rfl⟩ := Bytes.startsWith_iff.mp hstarts
  rw [Bytes.after?_append, Option.getD_some] at hnumber
  rw [Reads, RecordKey.bytes, ← RecordKey.eq_bigEndian_of_number? hnumber, hget, Option.map_some,
    hread]

/-- **A scan** leaves the run of a container only if the container is cut short.

**Proof sketch.** Each container that can be read is one of the field, and its slots are read one by
one. -/
theorem Container.ends_scan {layout : ContainerLayout} :
    (scan view name layout).Ends (fun e => e.Reports ∨ ∃ page slot, e.Overruns page slot ∧
      view.CutShort name layout.vectorLength 0 page slot) fun _ => True := by
  refine (Except.Ends.mapM (R := fun _ => True) ?_).bind fun _ _ => .ok trivial
  rintro ⟨key, stored⟩ hmem
  unfold vectorsOfEntry
  dsimp only
  split
  · exact .error (.inl rfl)
  · next number hnumber =>
    cases hread : ofStored view ⟨number⟩ stored with
    | error e => exact .error (.inl (hread ▸ ends_ofStored view ⟨number⟩ stored).of_error)
    | ok container =>
      refine (ends_vectorsFrom container.run layout ⟨number⟩ 0 container.ids).imp
        (fun e he => ?_) fun _ _ => trivial
      obtain ⟨slot, rfl, hslot, hshort, hbound⟩ := he
      rw [Nat.zero_add] at hslot
      exact .inr ⟨⟨number⟩, slot, rfl, container, Snapshot.reads_of_mem_scan hmem hnumber hread,
        Nat.lt_of_lt_of_le hslot (Nat.le_max_left _ _), hshort, hbound⟩

/-- A container that a graph has opened can be read in the field. -/
lemma FieldGraph.reads_of_loadContainers {container : Container}
    (h : (loadContainers view name)[page]? = some (.ok container)) :
    view.Reads name page container := by
  rw [getElem?_loadContainers] at h
  exact h

/-- What cannot be read of a graph that has been opened is reported.

**Proof sketch.** Loading keeps for each node and container what reading its record gives, a value
or a report. -/
lemma FieldGraph.ends_of_load {codec : Codec} {graph : FieldGraph}
    (h : load view name codec = .ok graph) :
    (∀ id, (graph.node id).Ends IndexError.Reports fun _ => True) ∧
      (∀ page, (graph.container page).Ends IndexError.Reports (view.Reads name page)) ∧
      GraphHeader.find view name = .ok graph.header := by
  obtain ⟨header, hheader, h⟩ := Except.bind_eq_ok_iff.mp h
  rw [← Except.ok.inj h]
  refine ⟨fun id => ?_, fun page => ?_, hheader⟩
  · rw [node, getElem?_loadNodes]
    cases view.get? (RecordKey.node name id).bytes with
    | none => exact .error rfl
    | some stored => exact reports_decode stored
  · rw [container]
    cases hfound : (loadContainers view name)[page]? with
    | none => exact .error rfl
    | some found =>
      cases found with
      | ok container => exact .ok (reads_of_loadContainers hfound)
      | error e =>
        rw [getElem?_loadContainers] at hfound
        obtain ⟨stored, _, hread⟩ := Option.map_eq_some_iff.mp hfound
        exact .error (hread ▸ Container.ends_ofStored view page stored).of_error

/-- **The look-ups of a graph that has been opened** leave the run of a container only if the
container is cut short.

**Proof sketch.** A stored vector is read through its node, the layout and its container; only the
last look-up can leave a run. -/
theorem FieldGraph.failsBy_of_load {codec : Codec} {graph : FieldGraph}
    (h : load view name codec = .ok graph) : graph.FailsBy (view.Blames name) := by
  obtain ⟨hnode, hcontainer, hheader⟩ := ends_of_load h
  refine ⟨fun id => (hnode id).imp (fun _ => Snapshot.blames_of_reports) fun _ h => h,
    fun place => ?_⟩
  unfold stored FieldGraph.layout
  split
  · next layout hlayout =>
    refine ((hcontainer place.container).imp (fun _ => Snapshot.blames_of_reports)
      fun _ h => h).bind fun container hreads => ?_
    refine (Container.ends_vector container layout place).imp (fun e he => he.imp_right ?_)
      fun _ h => h
    rintro ⟨slot, hover, hslot, hshort, hbound⟩
    rw [ContainerLayout.vectorLength_of_forVectorLength? hlayout] at hshort
    exact ⟨place.container, slot, graph.header, hover, hheader, container, hreads,
      Nat.lt_of_lt_of_le hslot (Nat.le_max_left _ _), hshort, hbound⟩
  · exact .error (.inl rfl)

namespace Search

/-- The faults of a query are reported. -/
lemma ends_encodeQuery (field : FieldRecord) (rawLength : Nat) (query : Bytes) :
    (encodeQuery field rawLength query).Ends IndexError.Reports fun _ => True := by
  simp only [encodeQuery, Except.throw_eq_error, Except.error_bind, Except.pure_eq_ok]
  split
  · exact .error rfl
  · split
    · exact .ok trivial
    · exact .error rfl

/-- **A scan for the nearest vectors** leaves the run of a container only if the container is cut
short, and breaks down before if it is to keep more than there can be room for.

**Proof sketch.** The check of the room comes before the scan. -/
theorem ends_scanNearest {field : FieldRecord} {header : GraphHeader}
    (hheader : GraphHeader.find view field.name = .ok header) (hnodes : 0 < header.nodeCount)
    (count : Nat) (encoded : Bytes) :
    (scanNearest view field header.vectorLength count encoded).Ends
      (fun e => view.Blames field.name e ∨ view.Overasks field.name count e) fun _ => True := by
  unfold scanNearest
  split
  · exact .error (.inl (.inl rfl))
  · next layout hlayout =>
    have hroom : (checkRoom count).Ends (view.Overasks field.name count) fun _ => True := by
      unfold checkRoom
      dsimp only
      split
      · exact .ok trivial
      · next hmany =>
        exact .error ⟨header, hheader, hnodes,
          ContainerLayout.pos_of_forVectorLength? hlayout, Nat.lt_of_not_le hmany, rfl⟩
    refine (hroom.imp (fun _ => .inr) fun _ h => h).bind fun _ _ => ?_
    refine (Container.ends_scan.imp (fun e he => .inl (he.imp_right ?_)) fun _ h => h).bind
      fun _ _ => .ok trivial
    rintro ⟨page, slot, hover, hcut⟩
    rw [ContainerLayout.vectorLength_of_forVectorLength? hlayout] at hcut
    exact ⟨page, slot, header, hover, hheader, hcut⟩

/-- **The exact search** leaves the run of a container only if the container is cut short, and
breaks down before if it is to keep more than there can be room for.

**Proof sketch.** The header, the query and the scan fail in turn; the scan is left out for an empty
field. -/
theorem ends_exactIn (view : Snapshot) (field : FieldRecord) (count : Nat) (query : Bytes)
    (minSimilarity : Single) :
    (exactIn view field count query minSimilarity).Ends
      (fun e => view.Blames field.name e ∨ view.Overasks field.name count e) fun _ => True := by
  unfold exactIn
  cases hheader : GraphHeader.find view field.name with
  | error e => exact .error (.inl (.inl (hheader ▸ GraphHeader.ends_find _ _).of_error))
  | ok header =>
    dsimp only
    rw [Except.ok_bind]
    refine ((ends_encodeQuery field header.rawLength query).imp
      (fun _ h => .inl (.inl h)) fun _ h => h).bind fun encoded _ => ?_
    split
    · next hsome =>
      exact (ends_scanNearest hheader hsome.1 count encoded).bind fun _ _ => .ok trivial
    · exact .ok trivial

/-- **The exact search does break down** if there are to be vectors, whether there are any or not,
and it is to keep more than there can be room for. -/
theorem exactIn_eq_roomOverflow {field : FieldRecord} {header : GraphHeader} {count : Nat}
    {query encoded : Bytes} (hheader : GraphHeader.find view field.name = .ok header)
    (hencode : encodeQuery field header.rawLength query = .ok encoded)
    (hnodes : 0 < header.nodeCount) (hlength : 0 < header.vectorLength) (hmany : maxRoom ≤ count)
    (hword : count + 1 < UInt64.size) (minSimilarity : Single) :
    exactIn view field count query minSimilarity = .error (.roomOverflow (count + 1)) := by
  obtain ⟨layout, hlayout⟩ := ContainerLayout.exists_of_pos hlength
  have hcount : 0 < count := Nat.lt_of_lt_of_le (by decide) hmany
  rw [exactIn, hheader, Except.ok_bind, hencode, Except.ok_bind, if_pos ⟨hnodes, hcount⟩,
    scanNearest]
  simp only [hlayout, checkRoom_eq_error hmany hword, Except.error_bind]

/-- **The exact search does leave a run** if all containers of the field can be read, one of them is
cut short for the vectors that its header describes, and there can be room for what is to be
kept.

**Proof sketch.** The scan stops at the first container that is cut short, since all can be read and
there is room. One of them is cut short by assumption, so it cannot go through. -/
theorem exists_overrun {field : FieldRecord} {header : GraphHeader} {count : Nat} {query : Bytes}
    {encoded : Bytes} (hheader : GraphHeader.find view field.name = .ok header)
    (hencode : encodeQuery field header.rawLength query = .ok encoded)
    (hnodes : 0 < header.nodeCount) (hcount : 0 < count) (hroom : count < maxRoom)
    (hreadable : ∀ key stored, (key, stored) ∈ view.scan (RecordKey.containerStem field.name) →
      ∃ page container, key = (RecordKey.container field.name page).bytes ∧
        Container.ofStored view page stored = .ok container)
    (hcut : view.CutShort field.name header.vectorLength 0 page slot) (minSimilarity : Single) :
    ∃ page slot, exactIn view field count query minSimilarity =
      .error (.slotOutsideRun page slot) := by
  obtain ⟨container, hreads, hslot, hshort, hbound⟩ := hcut
  have hpos : 0 < header.vectorLength := by
    refine Nat.pos_of_ne_zero fun hzero => ?_
    rw [hzero, Nat.mul_zero] at hshort
    exact Nat.not_lt_zero _ hshort
  obtain ⟨layout, hlayout⟩ := ContainerLayout.exists_of_pos hpos
  have hlength := ContainerLayout.vectorLength_of_forVectorLength? hlayout
  have hentries : ∀ entry ∈ view.scan (RecordKey.containerStem field.name),
      (Container.vectorsOfEntry view field.name layout entry).Ends
        (fun e => ∃ page slot, e = .slotOutsideRun page slot) fun _ => True := by
    rintro ⟨key, stored⟩ hmem
    obtain ⟨page', container', rfl, hread⟩ := hreadable key stored hmem
    rw [Container.vectorsOfEntry_of_ofStored hread]
    refine (Container.ends_vectorsFrom container'.run layout page' 0 container'.ids).imp ?_
      fun _ _ => trivial
    rintro e ⟨slot', rfl, -⟩
    exact ⟨page', slot', rfl⟩
  have hscan : ∃ page slot, Container.scan view field.name layout =
      .error (.slotOutsideRun page slot) := by
    unfold Container.scan
    cases hparts : (view.scan (RecordKey.containerStem field.name)).mapM
        (Container.vectorsOfEntry view field.name layout) with
    | error e =>
      obtain ⟨page', slot', rfl⟩ := (hparts ▸ Except.Ends.mapM hentries).of_error
      exact ⟨page', slot', rfl⟩
    | ok parts =>
      exfalso
      obtain ⟨stored, hstored, hread⟩ := Option.map_eq_some_iff.mp hreads
      have hmem : ((RecordKey.container field.name page).bytes, stored) ∈
          view.scan (RecordKey.containerStem field.name) :=
        Snapshot.mem_scan_iff.mpr ⟨hstored, Bytes.startsWith_iff.mpr ⟨_, rfl⟩⟩
      obtain ⟨part, _, hpart⟩ := Except.forall_of_mapM hparts _ hmem
      rw [Container.vectorsOfEntry_of_ofStored hread] at hpart
      have hall := (hpart ▸ Container.ends_vectorsFrom container.run layout page 0
        container.ids).of_ok
      rw [Nat.max_zero, Container.used] at hslot
      have hfits := hall slot (Nat.zero_le _) (by omega) hbound
      rw [hlength] at hfits
      omega
  obtain ⟨page', slot', hscan⟩ := hscan
  refine ⟨page', slot', ?_⟩
  rw [exactIn, hheader, Except.ok_bind, hencode, Except.ok_bind, if_pos ⟨hnodes, hcount⟩,
    scanNearest]
  simp only [hlayout, checkRoom_eq_ok hroom, hscan, Except.ok_bind, Except.error_bind]

/-- **The approximate search** leaves the run of a container only if the container is cut short, and
breaks down before if it hands over to the exact one, which is to keep more than there can be room
for.

**Proof sketch.** The search hands over to the scan, or looks in the graph, whose look-ups fail as
those of a graph that has been opened. -/
theorem ends_approximateIn (view : Snapshot) (field : FieldRecord) (breadth : Nat) (query : Bytes)
    (minSimilarity : Single) :
    (approximateIn view field breadth query minSimilarity).Ends
      (fun e => view.Blames field.name e ∨ view.Overasks field.name breadth e) fun _ => True := by
  simp only [approximateIn, Except.throw_eq_error, Except.error_bind]
  split
  · exact .error (.inl (.inl rfl))
  cases hheader : GraphHeader.find view field.name with
  | error e => exact .error (.inl (.inl (hheader ▸ GraphHeader.ends_find _ _).of_error))
  | ok header =>
    rw [Except.ok_bind]
    split
    · exact ends_exactIn view field breadth query minSimilarity
    refine ((ends_encodeQuery field header.rawLength query).imp
      (fun _ h => .inl (.inl h)) fun _ h => h).bind fun encoded _ => ?_
    split
    · cases hload : FieldGraph.load view field.name (.ofOptions field.options) with
      | error e =>
        rw [FieldGraph.load, hheader] at hload
        cases hload
      | ok graph =>
        rw [Except.ok_bind]
        exact (((FieldGraph.failsBy_of_load hload).ends_search encoded breadth).imp
          (fun _ => .inl) fun _ h => h).bind fun _ _ => .ok trivial
    · exact .ok trivial

end Search

end Proximity

import Proximity.Proofs.Index.Founding
import Proximity.Proofs.Search

set_option relaxedAutoImplicit false
set_option autoImplicit false

/-!
# What the records of a field account for

The records of a field are kept in three families of keys: one record for each node, one for each
container, and a header. As any transaction sees them they tell the same story: the node records,
the lists of the containers and the count of the header all stand for the vectors that the field has
accepted, each of them once, and every node leads to the slot in which its vector lies.

## Main definitions

* `Proximity.Snapshot.HasNode`, `Proximity.Snapshot.HasContainer` — the records, as they are read.
* `Proximity.Snapshot.Files` — a vector with its node, in its slot.
* `Proximity.Snapshot.Accounts` — the records of a field stand for some vectors.

## Main results

* `Proximity.Snapshot.Sound.perm_scan_nodeStem` — a scan finds one node record for each vector.
* `Proximity.Snapshot.Sound.exists_listed` — the containers list the vectors in their order.
* `Proximity.Snapshot.Sound.exists_accounts` — the records stand for the accepted vectors.
-/

namespace Proximity

open MessagePack

namespace Snapshot

/-! ## Records -/

/-- The record of a node can be read. -/
def HasNode (view : Snapshot) (name : String) (id : VectorId) (node : NodeRecord) : Prop :=
  ∃ stored, view.get? (RecordKey.node name id).bytes = some stored ∧ decode stored = .ok node

/-- The record of a container can be read. -/
def HasContainer (view : Snapshot) (name : String) (page : PageId) (record : ContainerRecord) :
    Prop :=
  ∃ stored, view.get? (RecordKey.container name page).bytes = some stored ∧
    decode stored = .ok record

/-- **A vector is filed under a node**: the node has a list and a parent on each of its layers, and
it names a slot in which the container lists the vector and holds its stored form. -/
structure Files (view : Snapshot) (field : FieldRecord) (header : GraphHeader) (vector : Accepted)
    (node : NodeRecord) : Prop where
  record : view.HasNode field.name vector.id node
  shaped : node.Shaped
  level_le : node.level ≤ header.maxLevel
  encoded : (Codec.ofOptions field.options).encode vector.raw = .ok vector.stored
  slot : ∃ layout record run,
    ContainerLayout.forVectorLength? header.vectorLength = some layout ∧
    view.HasContainer field.name node.location.container record ∧
    record.ids[node.location.slot.toNat]? = some vector.id ∧
    view.run node.location.container = .ok run ∧
    run.slice? (layout.slotOffset node.location.slot) layout.vectorLength = some vector.stored

/-- **The records of a field stand for some vectors**, each of them once: in the keys of the nodes,
in the lists of the containers and in the header. -/
structure Accounts (view : Snapshot) (field : FieldRecord) (vectors : List Accepted)
    (header : GraphHeader) : Prop where
  found : GraphHeader.find view field.name = .ok header
  nodup : (vectors.map Accepted.id).Nodup
  nodes : ((view.scan (RecordKey.nodeStem field.name)).map Prod.fst).Perm
    (vectors.map fun vector => (RecordKey.node field.name vector.id).bytes)
  listed : ∃ records : List ContainerRecord,
    (view.scan (RecordKey.containerStem field.name)).mapM
      (fun entry => (decode entry.2 : Except IndexError ContainerRecord)) = .ok records ∧
    records.flatMap ContainerRecord.ids = vectors.map Accepted.id
  files : ∀ vector ∈ vectors, ∃ node, view.Files field header vector node
  apart : ∀ a ∈ vectors, ∀ b ∈ vectors, ∀ node node', view.HasNode field.name a.id node →
    view.HasNode field.name b.id node' → node.location = node'.location → a = b
  nodeCount : header.nodeCount = vectors.length
  blank : vectors = [] → header = .blank
  entry : vectors ≠ [] → ∃ entry node, header.entryPoint = some entry ∧
    entry ∈ vectors.map Accepted.id ∧ view.HasNode field.name entry node ∧
    node.level = header.maxLevel

variable {view : Snapshot} {name : String} {id : VectorId} {node node' : NodeRecord}
  {field : FieldRecord} {header : GraphHeader} {vector : Accepted} {contents : GraphContents}
  {ledger : Ledger}

/-- A snapshot has at most one node of a vector. -/
lemma HasNode.unique (h : view.HasNode name id node) (h' : view.HasNode name id node') :
    node = node' := by
  obtain ⟨stored, hstored, hnode⟩ := h
  obtain ⟨stored', hstored', hnode'⟩ := h'
  obtain rfl := Option.some.inj (hstored.symm.trans hstored')
  exact Except.ok.inj (hnode.symm.trans hnode')

namespace Holds

/-- The nodes of a snapshot are those of the contents that it holds. -/
lemma hasNode_iff (h : view.Holds name contents) :
    view.HasNode name id node ↔ contents.node id = some node := by
  have hnode := h.node id
  constructor
  · rintro ⟨stored, hstored, hdecode⟩
    rw [hstored, Option.map_some, hdecode] at hnode
    obtain ⟨found, hfound, heq⟩ := Option.map_eq_some_iff.mp hnode.symm
    rw [hfound, Except.ok.inj heq]
  · intro hfound
    rw [hfound] at hnode
    obtain ⟨stored, hstored, hdecode⟩ := Option.map_eq_some_iff.mp hnode
    exact ⟨stored, hstored, hdecode⟩

/-- The containers of the contents that a snapshot holds have their records. -/
lemma hasContainer (h : view.Holds name contents) {page : PageId} {container : Container}
    (hcontainer : contents.container page = some container) :
    view.HasContainer name page container.record := by
  have hpage := h.container page
  rw [hcontainer] at hpage
  obtain ⟨stored, hstored, hread⟩ := Option.map_eq_some_iff.mp hpage
  obtain ⟨record, hdecode, hread⟩ := Except.bind_eq_ok_iff.mp hread
  refine ⟨stored, hstored, ?_⟩
  simp only [h.run_eq hcontainer, Except.pure_eq_ok, Except.ok.injEq] at hread
  rw [hdecode, ← hread]
  rfl

end Holds

namespace Sound

/-! ## The three families -/

/-- **A scan finds one node record for each vector** that the field has accepted, and no other.

**Proof sketch.** Neither list has repeats, and they have the same members: a key with that stem
belongs to a node, and there is a node for each vector that has been accepted and no other. -/
theorem perm_scan_nodeStem (h : view.Sound ledger) (hfind : Catalog.find view name = .ok field)
    (hholds : view.Holds name contents) (hsound : contents.Sound field (ledger name)) :
    ((view.scan (RecordKey.nodeStem name)).map Prod.fst).Perm
      ((ledger name).map fun vector => (RecordKey.node name vector.id).bytes) := by
  have hscan : ((view.scan (RecordKey.nodeStem name)).map Prod.fst).Nodup := by
    refine List.pairwise_map.mpr ((view.pairwise_scan _).imp fun {a b} hab heq => ?_)
    rw [heq, Std.ReflOrd.compare_self] at hab
    exact absurd hab (by decide)
  have hvectors :
      ((ledger name).map fun vector => (RecordKey.node name vector.id).bytes).Nodup := by
    have hkeys := hsound.nodup.map (f := fun id => (RecordKey.node name id).bytes)
      fun _ _ => FieldGraph.node_bytes_inj
    rwa [List.map_map] at hkeys
  refine (List.perm_ext_iff_of_nodup hscan hvectors).mpr fun key => ?_
  simp only [List.mem_map]
  constructor
  · rintro ⟨⟨key, stored⟩, hin, rfl⟩
    obtain ⟨hget, hstarts⟩ := mem_scan_iff.mp hin
    obtain ⟨record, rfl, hplain, _⟩ := h.key key stored hget
    obtain ⟨id, rfl⟩ :=
      (RecordKey.startsWith_nodeStem_iff hplain (h.slash_notMem hfind)).mp hstarts
    have hnode := hholds.node id
    rw [hget] at hnode
    obtain ⟨node, hfound, _⟩ := Option.map_eq_some_iff.mp hnode.symm
    obtain ⟨vector, hvector, rfl⟩ :=
      List.mem_map.mp ((hsound.registered id).mp ⟨node, hfound, Nat.zero_le _⟩)
    exact ⟨vector, hvector, rfl⟩
  · rintro ⟨vector, hvector, rfl⟩
    obtain ⟨node, hfound, _⟩ := (hsound.registered vector.id).mpr (List.mem_map_of_mem hvector)
    obtain ⟨stored, hget, _⟩ := hholds.hasNode_iff.mpr hfound
    exact ⟨(_, stored), mem_scan_iff.mpr ⟨hget, Bytes.startsWith_iff.mpr ⟨_, rfl⟩⟩, rfl⟩

/-- **The containers list the vectors** that the field has accepted, in the order in which it
accepted them.

**Proof sketch.** The scan gives the shelves in the order of their pages, and each record lists the
ids of its shelf. -/
theorem exists_listed (h : view.Sound ledger) (hfind : Catalog.find view name = .ok field)
    (hholds : view.Holds name contents) (hsound : contents.Sound field (ledger name)) :
    ∃ records : List ContainerRecord, (view.scan (RecordKey.containerStem name)).mapM
        (fun entry => (decode entry.2 : Except IndexError ContainerRecord)) = .ok records ∧
      records.flatMap ContainerRecord.ids = (ledger name).map Accepted.id := by
  obtain ⟨layout, shelves, hshelved, _, hledger, _⟩ := hsound.shelved
  refine ⟨shelves.map fun shelf => ⟨shelf.vectors.map Accepted.id⟩, ?_, ?_⟩
  · rw [h.scan_containerStem hfind hholds hshelved, List.mapM_map]
    refine Except.mapM_eq_ok fun shelf hshelf => ?_
    obtain ⟨container, hcontainer, hentries⟩ := hshelved.holds shelf hshelf
    obtain ⟨stored, hstored, hdecode⟩ := hholds.hasContainer hcontainer
    simp only [Function.comp_apply, hstored, Option.getD_some, hdecode, Container.record,
      hentries.ids, List.map_map]
    rfl
  · rw [← hledger, List.flatMap_map, List.map_flatMap]

/-- **Every vector that the field has accepted is filed** under its node.

**Proof sketch.** The vector is on a shelf at some place, and its node names the slot with that
number in the container of the shelf. -/
theorem exists_files (hholds : view.Holds field.name contents)
    (hsound : contents.Sound field (ledger field.name)) (hvector : vector ∈ ledger field.name) :
    ∃ node, view.Files field contents.header vector node := by
  obtain ⟨layout, shelves, hshelved, hplaced, hledger, hlayout⟩ := hsound.shelved
  obtain ⟨hlayout, hfits, _⟩ := hlayout (List.ne_nil_of_mem hvector)
  obtain ⟨shelf, hshelf, hin⟩ := List.mem_flatMap.mp (hledger ▸ hvector)
  obtain ⟨i, hi⟩ := List.mem_iff_getElem?.mp hin
  obtain ⟨node, hnode, hlocation⟩ := hplaced shelf hshelf i vector hi
  obtain ⟨container, hcontainer, hentries⟩ := hshelved.holds shelf hshelf
  have hlt : i < layout.slots := by
    obtain ⟨hlt, _⟩ := List.getElem?_eq_some_iff.mp hi
    have hle := hentries.length_le
    rw [List.length_map] at hle
    omega
  have hslot := Container.Holds.toNat_slot hfits hlt
  have hentry : (shelf.vectors.map Accepted.entry)[i]? = some vector.entry := by
    rw [List.getElem?_map, hi, Option.map_some]
  refine ⟨node, ?_⟩
  exact {
    record := hholds.hasNode_iff.mpr hnode
    shaped := hsound.linked.shaped vector.id node hnode
    level_le := hsound.linked.level_le vector.id node hnode
    encoded := hsound.encoded vector hvector
    slot := by
      rw [hlocation]
      refine ⟨layout, container.record, container.run, hlayout, hholds.hasContainer hcontainer, ?_,
        hholds.run_eq hcontainer, ?_⟩
      · rw [hslot, Container.record, hentries.ids, List.getElem?_map, hentry, Option.map_some]
        rfl
      · rw [ContainerLayout.slotOffset, hslot]
        exact hentries.slot i vector.entry hentry }

/-! ## All records -/

/-- **The records of a field stand for the vectors that it has accepted.**

**Proof sketch.** The parts are the lemmas above and what a sound graph says of its header. -/
theorem exists_accounts (h : view.Sound ledger) (hfind : Catalog.find view name = .ok field) :
    ∃ header, view.Accounts field (ledger name) header := by
  obtain ⟨rfl, _⟩ := h.valid hfind
  obtain ⟨contents, hholds, hsound, _⟩ := h.graph field.name field hfind
  have hfiles : ∀ vector ∈ ledger field.name, ∃ node,
      view.Files field contents.header vector node := fun vector hvector =>
    exists_files hholds hsound hvector
  refine ⟨contents.header, ?_⟩
  exact {
    found := hholds.header
    nodup := hsound.nodup
    nodes := h.perm_scan_nodeStem hfind hholds hsound
    listed := h.exists_listed hfind hholds hsound
    files := hfiles
    apart := by
      intro a ha b hb node node' hnode hnode' hlocation
      -- The slot lists one name, and each name stands for one vector.
      obtain ⟨filed, hfiled⟩ := hfiles a ha
      obtain ⟨filed', hfiled'⟩ := hfiles b hb
      obtain rfl := hnode.unique hfiled.record
      obtain rfl := hnode'.unique hfiled'.record
      obtain ⟨_, record, _, _, ⟨stored, hstored, hdecode⟩, hlisted, _⟩ := hfiled.slot
      obtain ⟨_, record', _, _, ⟨stored', hstored', hdecode'⟩, hlisted', _⟩ := hfiled'.slot
      rw [← hlocation] at hstored' hlisted'
      obtain rfl := Option.some.inj (hstored.symm.trans hstored')
      obtain rfl := Except.ok.inj (hdecode.symm.trans hdecode')
      exact List.inj_on_of_nodup_map hsound.nodup ha hb
        (Option.some.inj (hlisted.symm.trans hlisted'))
    nodeCount := hsound.nodeCount
    blank := hsound.blank
    entry := by
      intro hne
      obtain ⟨vector, hvector⟩ := List.exists_mem_of_ne_nil _ hne
      obtain ⟨filed, hfiled⟩ := hfiles vector hvector
      have hsome : contents.header.entryPoint ≠ none := fun hnone => by
        have hfound := hholds.hasNode_iff.mp hfiled.record
        rw [hsound.linked.blank hnone] at hfound
        cases hfound
      obtain ⟨entry, hentry⟩ := Option.ne_none_iff_exists'.mp hsome
      obtain ⟨node, hnode, hle⟩ := hsound.linked.entry entry hentry
      refine ⟨entry, node, hentry, (hsound.registered entry).mp ⟨node, hnode, Nat.zero_le _⟩,
        hholds.hasNode_iff.mpr hnode, ?_⟩
      exact Nat.le_antisymm (hsound.linked.level_le entry node hnode) hle }

end Sound

end Snapshot

end Proximity

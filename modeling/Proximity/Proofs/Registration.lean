import Proximity.Proofs.Embedding
import Proximity.Proofs.Graph.Insertion
import Proximity.Proofs.Graph.Shelves
import Proximity.Proofs.Store.View
import Proximity.Registration

set_option relaxedAutoImplicit false
set_option autoImplicit false

/-!
# One registration

The graph of a field is sound for the vectors that the field has accepted: it has a node for each of
them and no other, they lie in its containers in the order in which they were accepted, and each
layer is linked. A vector that passes the checks of a session is put away and linked without
failing, and the graph is sound with it.

## Main definitions

* `Proximity.GraphContents.Sound` — the graph of a field with some accepted vectors.
* `Proximity.GraphContents.Backed` — the pages of all containers have been handed out.
* `Proximity.Registration.Admits` — a vector that a field has room for.

## Main results

* `Proximity.Registration.check_cases` — a vector is refused for one of four reasons, or admitted.
* `Proximity.Registration.check_eq_ok` — a vector that is admitted passes the check.
* `Proximity.Registration.exists_insert` — a vector that is admitted is inserted.
* `Proximity.Registration.exists_insert_eq_error` — unless it is too long for any page run.
-/

namespace Proximity

/-- The greatest length of a stored form: it fits into the longest page run. -/
def maxStoredLength : Nat :=
  pageSize * (UInt32.size - 1)

/-- **Fewer vectors than 64 bits count** have different ids that name a vector: the greatest of
these numbers fills half of the range.

**Proof sketch.** The ids are different numbers below `2 ^ 63`, of which there are no more than
that. -/
theorem length_lt_of_nodup_accepted {ledger : List Accepted}
    (hnodup : (ledger.map Accepted.id).Nodup)
    (haccepted : ∀ vector ∈ ledger, VectorId.accepted vector.id.raw = true) :
    ledger.length < UInt64.size := by
  have hnumbers : (ledger.map fun vector => vector.id.raw.toNat).Nodup := by
    have hinjective : Function.Injective fun id : VectorId => id.raw.toNat := fun a b hab =>
      congrArg VectorId.mk (UInt64.toNat_inj.mp hab)
    have hmap := hnodup.map hinjective
    rwa [List.map_map] at hmap
  have hsub : (ledger.map fun vector => vector.id.raw.toNat) ⊆ List.range (2 ^ 63) := by
    intro n hn
    obtain ⟨vector, hvector, rfl⟩ := List.mem_map.mp hn
    have hraw := haccepted vector hvector
    rw [VectorId.accepted, Bool.and_eq_true, decide_eq_true_eq, decide_eq_true_eq,
      UInt64.le_iff_toNat_le] at hraw
    have hgreatest : VectorId.greatest.toNat < 2 ^ 63 := by decide
    exact List.mem_range.mpr (Nat.lt_of_le_of_lt hraw.2 hgreatest)
  have hle := (hnumbers.subperm hsub).length_le
  rw [List.length_map, List.length_range] at hle
  exact Nat.lt_of_le_of_lt hle (by decide)

namespace GraphContents

/-- **The graph of a field is sound** for the vectors that the field has accepted. -/
structure Sound (contents : GraphContents) (field : FieldRecord) (ledger : List Accepted) :
    Prop where
  linked : contents.Linked field.options.edges
  nodup : (ledger.map Accepted.id).Nodup
  accepted : ∀ vector ∈ ledger, VectorId.accepted vector.id.raw = true
  encoded : ∀ vector ∈ ledger, (Codec.ofOptions field.options).encode vector.raw = .ok vector.stored
  rawLength : ∀ vector ∈ ledger, vector.raw.length = contents.header.rawLength
  storedLength : ∀ vector ∈ ledger, vector.stored.length = contents.header.vectorLength
  fixedLength : ∀ vector ∈ ledger, 0 < field.options.vectorBytes →
    vector.raw.length = field.options.vectorBytes
  registered : ∀ id, id ∈ contents.members 0 ↔ id ∈ ledger.map Accepted.id
  nodeCount : contents.header.nodeCount = ledger.length
  blank : ledger = [] → contents.header = .blank
  rawLength_lt : contents.header.rawLength < UInt64.size
  vectorLength_le : contents.header.vectorLength ≤ maxStoredLength
  shelved : ∃ layout shelves, contents.Shelved layout shelves ∧ contents.Placed shelves ∧
    shelves.flatMap Shelf.vectors = ledger ∧ (ledger ≠ [] →
      ContainerLayout.forVectorLength? contents.header.vectorLength = some layout ∧ layout.Fits ∧
        layout.vectorLength = contents.header.vectorLength)

/-- The page run of every container has been handed out. -/
def Backed (contents : GraphContents) (view : Snapshot) : Prop :=
  ∀ page container, contents.container page = some container →
    page.number < view.nextPage ∧ ∃ run, view.run page = .ok run ∧ run.size = container.run.size

/-- The contents of a graph without nodes. -/
def blank : GraphContents where
  header := .blank
  node _ := none
  container _ := none

variable {contents next : GraphContents} {field : FieldRecord} {ledger : List Accepted}

/-- A graph without nodes is sound for no vectors.

**Proof sketch.** There is no node and no vector. -/
lemma sound_blank (field : FieldRecord) : blank.Sound field [] where
  linked := {
    shaped := fun _ _ h => by simp [blank] at h
    level_le := fun _ _ h => by simp [blank] at h
    maxLevel_le := Nat.zero_le _
    blank := fun _ _ => rfl
    entry := fun _ h => by simp [blank, GraphHeader.blank] at h
    sound := fun h => absurd rfl h }
  nodup := List.nodup_nil
  accepted := by simp
  encoded := by simp
  rawLength := by simp
  storedLength := by simp
  fixedLength := by simp
  registered id := by simp [members, blank]
  nodeCount := rfl
  blank _ := rfl
  rawLength_lt := by decide
  vectorLength_le := by decide
  shelved := ⟨⟨0, 0, 0⟩, [], ⟨List.Pairwise.nil, by simp, fun _ _ h => by simp [blank] at h, rfl,
    by simp, by simp⟩, by simp [Placed], rfl, fun h => absurd rfl h⟩

namespace Sound

/-- There are fewer vectors than numbers that can name one. -/
lemma length_lt (h : contents.Sound field ledger) : ledger.length < UInt64.size :=
  length_lt_of_nodup_accepted h.nodup h.accepted

/-- **The stored form of every accepted vector** can be read. -/
theorem stores (h : contents.Sound field ledger) {vector : Accepted} (hvector : vector ∈ ledger) :
    contents.Stores vector.id vector.stored := by
  obtain ⟨layout, shelves, hshelved, hplaced, rfl, hlayout⟩ := h.shelved
  obtain ⟨hlayout, hfits, _⟩ := hlayout (List.ne_nil_of_mem hvector)
  exact hshelved.stores hplaced hlayout hfits hvector

/-- What is on the lowest layer is stored. -/
lemma members_subset_stored (h : contents.Sound field ledger) :
    contents.members 0 ⊆ contents.stored := by
  intro id hid
  obtain ⟨vector, hvector, rfl⟩ := List.mem_map.mp ((h.registered id).mp hid)
  exact ⟨_, h.stores hvector⟩

/-- A vector without a node has not been accepted. -/
lemma node_eq_none_iff (h : contents.Sound field ledger) {id : VectorId} :
    contents.node id = none ↔ id ∉ ledger.map Accepted.id := by
  rw [← h.registered]
  constructor
  · exact fun hnone => notMem_members hnone
  · intro hnot
    cases hnode : contents.node id with
    | none => rfl
    | some node => exact absurd ⟨node, hnode, Nat.zero_le _⟩ hnot

/-- Vectors have been accepted exactly if a length has been fixed. -/
lemma vectorLength_pos_iff (h : contents.Sound field ledger) :
    0 < contents.header.vectorLength ↔ ledger ≠ [] := by
  constructor
  · rintro hpos rfl
    rw [h.blank rfl] at hpos
    exact absurd hpos (Nat.lt_irrefl 0)
  · intro hne
    obtain ⟨vector, hvector⟩ := List.exists_mem_of_ne_nil ledger hne
    rw [← h.storedLength vector hvector]
    exact (length_encodeVector (h.encoded vector hvector)).2

end Sound

end GraphContents

/-! ## Checks -/

namespace Registration

open GraphContents

/-- **A field admits a vector** beside those that it has accepted: the vector has a name of its own
that callers may use, it has the form and the length that the options ask for, and it is as long as
the others. -/
structure Admits (field : FieldRecord) (ledger : List Accepted) (vector : Accepted) : Prop where
  accepted : VectorId.accepted vector.id.raw = true
  encoded : (Codec.ofOptions field.options).encode vector.raw = .ok vector.stored
  fixedLength : 0 < field.options.vectorBytes → vector.raw.length = field.options.vectorBytes
  length : ∀ other ∈ ledger, other.raw.length = vector.raw.length
  new : vector.id ∉ ledger.map Accepted.id

/-- The faults that a session finds in a vector. -/
def IsRefusal (e : IndexError) : Prop :=
  (∃ id, e = .invalidId id) ∨ (∃ reason, e = .corruptInput reason) ∨
    (∃ expected got, e = .dimensionMismatch expected got) ∨ ∃ id, e = .duplicate id

variable {session : Registration} {field : FieldRecord} {base contents : GraphContents}
  {ledger : List Accepted} {id : UInt64} {raw stored : Bytes}

namespace Admits

variable {vector : Accepted}

/-- A vector that is admitted beside others is as long as they are. -/
lemma rawLength (h : Admits field ledger vector) (hsound : contents.Sound field ledger)
    (hne : ledger ≠ []) : vector.raw.length = contents.header.rawLength := by
  obtain ⟨other, hother⟩ := List.exists_mem_of_ne_nil ledger hne
  rw [← h.length other hother, hsound.rawLength other hother]

/-- A vector that is admitted beside others takes as many bytes as they take. -/
lemma storedLength (h : Admits field ledger vector) (hsound : contents.Sound field ledger)
    (hne : ledger ≠ []) : vector.stored.length = contents.header.vectorLength := by
  obtain ⟨other, hother⟩ := List.exists_mem_of_ne_nil ledger hne
  rw [← hsound.storedLength other hother, (length_encodeVector h.encoded).1,
    (length_encodeVector (hsound.encoded other hother)).1, h.length other hother]

end Admits

/-- Lengths are refused for one reason. -/
lemma checkLengths_eq_error {rawLength storedLength : Nat} {e : IndexError}
    (h : session.checkLengths rawLength storedLength = .error e) :
    ∃ expected got, e = .dimensionMismatch expected got := by
  simp only [checkLengths, Except.throw_eq_error, Except.error_bind, Except.pure_eq_ok] at h
  split_ifs at h <;> exact ⟨_, _, (Except.error.inj h).symm⟩

/-- The lengths of a vector are accepted if they are those that the field has, as far as it has
any. -/
lemma checkLengths_eq_ok_iff {rawLength storedLength : Nat} :
    session.checkLengths rawLength storedLength = .ok () ↔
      (0 < session.field.options.vectorBytes → rawLength = session.field.options.vectorBytes) ∧
        (0 < session.graph.header.rawLength → rawLength = session.graph.header.rawLength) ∧
        (0 < session.graph.header.vectorLength →
          storedLength = session.graph.header.vectorLength) := by
  simp only [checkLengths, Except.throw_eq_error, Except.error_bind, Except.pure_eq_ok]
  constructor
  · intro h
    split_ifs at h with hfixed hraw hstored
    exact ⟨fun hpos => by_contra fun hne => hfixed ⟨hpos, hne⟩,
      fun hpos => by_contra fun hne => hraw ⟨hpos, hne⟩,
      fun hpos => by_contra fun hne => hstored ⟨hpos, hne⟩⟩
  · rintro ⟨hfixed, hraw, hstored⟩
    rw [if_neg fun hne => hne.2 (hfixed hne.1), if_neg fun hne => hne.2 (hraw hne.1),
      if_neg fun hne => hne.2 (hstored hne.1)]

/-- **A session that has not failed refuses a vector for one of four reasons or admits it.**

**Proof sketch.** The checks are made one after the other, and each gives one of the reasons. A
vector that passes all is admitted. -/
theorem check_cases (hoptions : session.field.options.Accepted) (hfailure : session.failure = none)
    (h : session.graph.Shows session.field base contents)
    (hsound : contents.Sound session.field ledger) (id : UInt64) (raw : Bytes) :
    (∃ e, session.check id raw = .error e ∧ IsRefusal e) ∨
      ∃ stored, session.check id raw = .ok stored ∧
        Admits session.field ledger ⟨⟨id⟩, raw, stored⟩ := by
  simp only [check, hfailure, Except.throw_eq_error]
  by_cases haccepted : VectorId.accepted id = true
  swap
  · exact .inl ⟨.invalidId id, by simp [haccepted], .inl ⟨id, rfl⟩⟩
  simp only [haccepted, if_true, h.codec]
  cases hencode : (Codec.ofOptions session.field.options).encode raw with
  | error e =>
    exact .inl ⟨e, rfl, .inr (.inl (encodeVector_eq_error hoptions.converts hencode))⟩
  | ok stored =>
    simp only [Except.ok_bind]
    cases hlengths : session.checkLengths raw.length stored.length with
    | error e => exact .inl ⟨e, rfl, .inr (.inr (.inl (checkLengths_eq_error hlengths)))⟩
    | ok _ =>
      rw [Except.ok_bind, h.contains_eq]
      obtain ⟨hfixed, hraw, _⟩ := checkLengths_eq_ok_iff.mp hlengths
      rw [h.header] at hraw
      cases hnode : contents.node ⟨id⟩ with
      | some node => exact .inl ⟨.duplicate id, rfl, .inr (.inr (.inr ⟨id, rfl⟩))⟩
      | none =>
        refine .inr ⟨stored, rfl, haccepted, hencode, hfixed, fun other hother => ?_,
          hsound.node_eq_none_iff.mp hnode⟩
        obtain ⟨_, hcheck, _⟩ := Except.bind_eq_ok_iff.mp (hsound.encoded other hother)
        have hpos := (Encoding.pos_of_check hcheck).1
        rw [hsound.rawLength other hother] at hpos ⊢
        exact (hraw hpos).symm

/-- **A vector that the field admits passes the check.**

**Proof sketch.** Each check is the negation of one of the parts of being admitted. -/
theorem check_eq_ok (hfailure : session.failure = none)
    (h : session.graph.Shows session.field base contents)
    (hsound : contents.Sound session.field ledger) {vector : Accepted}
    (hadmits : Admits session.field ledger vector) :
    session.check vector.id.raw vector.raw = .ok vector.stored := by
  have hlengths : session.checkLengths vector.raw.length vector.stored.length = .ok () := by
    have hblank : ledger = [] → session.graph.header = .blank := fun hempty => by
      rw [h.header, hsound.blank hempty]
    refine checkLengths_eq_ok_iff.mpr ⟨hadmits.fixedLength, fun hpos => ?_, fun hpos => ?_⟩
    · rw [h.header]
      refine hadmits.rawLength hsound fun hempty => ?_
      rw [hblank hempty] at hpos
      exact Nat.lt_irrefl 0 hpos
    · rw [h.header]
      refine hadmits.storedLength hsound fun hempty => ?_
      rw [hblank hempty] at hpos
      exact Nat.lt_irrefl 0 hpos
  have hnew : session.graph.contains vector.id = false := by
    rw [h.contains_eq, hsound.node_eq_none_iff.mpr hadmits.new, Option.isSome_none]
  simp only [check, hfailure, hadmits.accepted, if_true, h.codec, hadmits.encoded, hlengths, hnew,
    Except.ok_bind, Except.pure_eq_ok]
  rfl

/-! ## Insertion -/

/-- The lengths of a field are fixed with its first vector, and there is a layout for them.

**Proof sketch.** In an empty field the lengths are taken from the vector and there are no shelves.
In any other they are those of the header. -/
lemma exists_layout (hsound : contents.Sound field ledger) {vector : Accepted}
    (hadmits : Admits field ledger vector)
    (hlength : vector.stored.length ≤ maxStoredLength) {header : GraphHeader}
    (hheader : header = fixLengths contents.header vector.raw.length vector.stored.length) :
    header.rawLength = vector.raw.length ∧ header.vectorLength = vector.stored.length ∧
      ∃ layout shelves, ContainerLayout.forVectorLength? vector.stored.length = some layout ∧
        layout.Fits ∧ layout.vectorLength = vector.stored.length ∧
        ({ contents with header } : GraphContents).Shelved layout shelves ∧
        contents.Placed shelves ∧ shelves.flatMap Shelf.vectors = ledger := by
  obtain ⟨layout, shelves, hshelved, hplaced, hledger, hlayout⟩ := hsound.shelved
  by_cases hempty : ledger = []
  · have hblank := hsound.blank hempty
    obtain ⟨layout', hlayout', hsame, hfits⟩ := ContainerLayout.exists_forVectorLength?
      (length_encodeVector hadmits.encoded).2 hlength
    obtain rfl : shelves = [] := List.eq_nil_iff_forall_not_mem.mpr fun shelf hshelf =>
      hshelved.nonempty shelf hshelf
        (List.flatMap_eq_nil_iff.mp (hledger.trans hempty) shelf hshelf)
    rw [fixLengths, hblank, if_pos (show GraphHeader.blank.vectorLength = 0 from rfl)] at hheader
    subst hheader
    exact ⟨rfl, rfl, layout', [], hlayout', hfits, hsame, ⟨List.Pairwise.nil, by simp,
      hshelved.listed, rfl, by simp, by simp⟩, hplaced, hledger⟩
  · have hpos := hsound.vectorLength_pos_iff.mpr hempty
    obtain ⟨hlayout, hfits, hsame⟩ := hlayout hempty
    rw [fixLengths, if_neg (Nat.ne_of_gt hpos)] at hheader
    subst hheader
    rw [hadmits.rawLength hsound hempty, hadmits.storedLength hsound hempty]
    exact ⟨rfl, rfl, layout, shelves, hlayout, hfits, hsame, hshelved, hplaced, hledger⟩

/-- A container with a free slot behind those that hold some vectors, and the transaction from which
it was handed out if it is new. -/
structure Offers (contents : GraphContents) (layout : ContainerLayout) (txn txn' : WriteTransaction)
    (vectors : List Accepted) (before : List Shelf) (last : Shelf) (container : Container) :
    Prop where
  roomy : contents.Roomy layout before last container
  placed : contents.Placed (before ++ [last])
  vectors_eq : before.flatMap Shelf.vectors ++ last.vectors = vectors
  extends_txn : txn.Extends txn'
  page_lt : last.page.number < txn'.nextPage
  page_new : (contents.container last.page).isSome = true ∨ txn.nextPage ≤ last.page.number
  run : ∃ run, txn'.view.run last.page = .ok run ∧ run.size = container.run.size

section Allocation

variable {graph : FieldGraph} {layout : ContainerLayout} {shelves : List Shelf}
  {txn : WriteTransaction}

/-- If no container has a free slot then a new one is handed out.

**Proof sketch.** All shelves are full. The new run has a greater number than all others, so that
its container comes last. -/
lemma exists_allocate_new (hfits : layout.Fits) (hshelved : contents.Shelved layout shelves)
    (hplaced : contents.Placed shelves) (hbacked : contents.Backed txn.view)
    (hpages : txn.nextPage.toNat + UInt32.size ≤ UInt64.size)
    (hroomy : roomyContainer graph layout = .ok none)
    (hfull : ∀ shelf ∈ shelves, shelf.vectors.length = layout.slots) :
    ∃ txn' before last container, allocate txn graph layout = (txn', .ok (last.page, container)) ∧
      Offers contents layout txn txn' (shelves.flatMap Shelf.vectors) before last container := by
  obtain ⟨txn', hallocate, hextends, hlt, hrun⟩ :=
    txn.exists_allocate_extends hfits.pages_pos hfits.pages_lt hpages
  have hpage : ∀ shelf ∈ shelves, shelf.page.number < txn.nextPage := by
    intro shelf hshelf
    obtain ⟨container, hcontainer, _⟩ := hshelved.holds shelf hshelf
    exact (hbacked shelf.page container hcontainer).1
  refine ⟨txn', shelves, ⟨⟨txn.nextPage⟩, []⟩, .blank layout,
    by simp only [allocate, hroomy, hallocate], ?_⟩
  exact {
    roomy := hshelved.roomy_new hfits hfull hpage
    placed := hplaced.concat_empty _
    vectors_eq := List.append_nil _
    extends_txn := hextends
    page_lt := hlt
    page_new := .inr (UInt64.le_refl _)
    run := ⟨_, hrun, rfl⟩ }

/-- The last container is open, and it has a free slot if it is not full. -/
lemma exists_roomyContainer_concat (h : graph.Shows field base contents) {before : List Shelf}
    {last : Shelf} (hshelved : contents.Shelved layout (before ++ [last])) :
    ∃ container, contents.container last.page = some container ∧
      container.Holds layout (last.vectors.map Accepted.entry) ∧ roomyContainer graph layout =
        .ok (if last.vectors.length < layout.slots then some (last.page, container) else none) := by
  obtain ⟨container, hcontainer, hholds⟩ := hshelved.holds last (by simp)
  have hused : container.used = last.vectors.length := by
    rw [Container.used, hholds.ids, List.length_map, List.length_map]
  refine ⟨container, hcontainer, hholds, ?_⟩
  simp only [roomyContainer, h.header, hshelved.opened, List.getLast?_concat, Option.map_some,
    h.container_eq hcontainer, Except.ok_bind, Except.pure_eq_ok, hused]

/-- **There is always a container with a free slot**: the open one, or a new one.

**Proof sketch.** If there are no shelves or the last one is full a run is handed out. Otherwise the
last one is open and is taken. -/
theorem exists_allocate (h : graph.Shows field base contents) (hfits : layout.Fits)
    (hshelved : contents.Shelved layout shelves) (hplaced : contents.Placed shelves)
    (hbacked : contents.Backed txn.view) (hpages : txn.nextPage.toNat + UInt32.size ≤ UInt64.size) :
    ∃ txn' before last container, allocate txn graph layout = (txn', .ok (last.page, container)) ∧
      Offers contents layout txn txn' (shelves.flatMap Shelf.vectors) before last container := by
  rcases List.eq_nil_or_concat shelves with rfl | ⟨before, last, rfl⟩
  · have hopen : roomyContainer graph layout = .ok none := by
      simp only [roomyContainer, h.header, hshelved.opened, List.getLast?_nil, Option.map_none]
    exact exists_allocate_new hfits hshelved hplaced hbacked hpages hopen (by simp)
  rw [List.concat_eq_append] at hshelved hplaced ⊢
  obtain ⟨container, hcontainer, hholds, hopen⟩ := exists_roomyContainer_concat h hshelved
  by_cases hroom : last.vectors.length < layout.slots
  · rw [if_pos hroom] at hopen
    obtain ⟨container', hcontainer', hroomy⟩ := hshelved.roomy_last hroom
    obtain rfl := Option.some.inj (hcontainer.symm.trans hcontainer')
    obtain ⟨hlt, hrun⟩ := hbacked last.page container hcontainer
    refine ⟨txn, before, last, container, by simp only [allocate, hopen], ?_⟩
    exact {
      roomy := hroomy
      placed := hplaced
      vectors_eq := by simp
      extends_txn := .refl txn
      page_lt := hlt
      page_new := .inl (by rw [hcontainer, Option.isSome_some])
      run := hrun }
  · rw [if_neg hroom] at hopen
    refine exists_allocate_new hfits hshelved hplaced hbacked hpages hopen fun shelf hshelf => ?_
    rcases List.mem_append.mp hshelf with hin | hin
    · exact hshelved.full shelf (by rwa [List.dropLast_concat])
    · have hlength := hholds.length_le
      rw [List.length_map] at hlength
      rw [List.mem_singleton.mp hin]
      omega

end Allocation

section Placement

variable {graph : FieldGraph} {layout : ContainerLayout} {txn txn' : WriteTransaction}
  {before : List Shelf} {last : Shelf} {container : Container} {vector : Accepted} {level : Nat}

/-- What is known of a graph whose lengths are fixed, and of a new vector that is to be put away. -/
structure Expects (field : FieldRecord) (contents : GraphContents) (layout : ContainerLayout)
    (ledger : List Accepted) (vector : Accepted) : Prop where
  linked : contents.Linked field.options.edges
  two_le : 2 ≤ field.options.edges
  registered : ∀ id ∈ contents.members 0, id ∈ ledger.map Accepted.id
  layout_eq : ContainerLayout.forVectorLength? contents.header.vectorLength = some layout
  fits : layout.Fits
  length_eq : vector.stored.length = layout.vectorLength
  new : contents.node vector.id = none

/-- What is true of a graph after a new vector has been put away and linked. -/
structure Receives (field : FieldRecord) (contents next : GraphContents) (layout : ContainerLayout)
    (before : List Shelf) (last : Shelf) (container : Container) (vector : Accepted)
    (level : Nat) : Prop where
  linked : next.Linked field.options.edges
  header : next.header = FieldGraph.countNode
    { contents.header with openContainer := some last.page } vector.id level
  members : next.members 0 = Insert.insert vector.id (contents.members 0)
  shelved : next.Shelved layout (before ++ [⟨last.page, last.vectors ++ [vector]⟩])
  placed : next.Placed (before ++ [⟨last.page, last.vectors ++ [vector]⟩])
  container : ∀ page found, next.container page = some found →
    (page = last.page ∧ found.run.size = container.run.size) ∨ contents.container page = some found

/-- **Putting a vector away and linking its node succeeds.**

**Proof sketch.** The vector goes to the next slot of the open container, its node is added without
links, and the linking succeeds and keeps the containers. -/
theorem exists_place (h : graph.Shows field base contents)
    (hexpects : Expects field contents layout ledger vector)
    (hoffers : Offers contents layout txn txn' ledger before last container)
    (hlevel : level ≤ maxLevel) :
    ∃ graph' next, place graph field.options layout last.page container vector.id vector.stored
        level = .ok graph' ∧ graph'.Shows field base next ∧
      Receives field contents next layout before last container vector level := by
  obtain ⟨filled, hpush, hfilled⟩ := hoffers.roomy.holds_last.exists_push hexpects.fits
    (by rw [List.length_map]; exact hoffers.roomy.room) last.page vector.id hexpects.length_eq
  rw [List.length_map] at hpush
  rw [show [(vector.id, vector.stored)] = [vector].map Accepted.entry from rfl,
    ← List.map_append] at hfilled
  set location : SlotRef := ⟨last.page, UInt8.ofNat last.vectors.length⟩ with hlocation
  set between : GraphContents := { contents.setContainer last.page filled with
    header := { contents.header with openContainer := some last.page } } with hbetween
  set shelves := before ++ [⟨last.page, last.vectors ++ [vector]⟩] with hshelves
  have hshelved : between.Shelved layout shelves := hoffers.roomy.shelved hfilled
  have hnew : between.node vector.id = none := hexpects.new
  have hplaced : (between.setNode vector.id (.blank level location)).Placed shelves :=
    hoffers.placed.setNode hnew rfl
  have hall : shelves.flatMap Shelf.vectors = ledger ++ [vector] := by
    rw [hshelves, List.flatMap_append, List.flatMap_singleton, ← List.append_assoc,
      hoffers.vectors_eq]
  have hstores : ∀ found ∈ ledger ++ [vector],
      (between.setNode vector.id (.blank level location)).Stores found.id found.stored := by
    intro found hfound
    have hshelved' : (between.setNode vector.id (.blank level location)).Shelved layout shelves :=
      hshelved.congr rfl rfl
    exact hshelved'.stores hplaced hexpects.layout_eq hexpects.fits (hall ▸ hfound)
  have hstored : between.members 0 ⊆ between.stored := by
    intro id hid
    obtain ⟨found, hfound, rfl⟩ := List.mem_map.mp (hexpects.registered id hid)
    refine ⟨_, (hstores found (List.mem_append_left _ hfound)).of_setNode fun heq => ?_⟩
    exact notMem_members hnew (heq ▸ hid)
  have hplace : vector.id ∈ (between.setNode vector.id (.blank level location)).stored :=
    ⟨_, hstores vector (by simp)⟩
  have hshows : ({ graph.setContainer last.page filled with header :=
      { (graph.setContainer last.page filled).header with openContainer := some last.page } } :
      FieldGraph).Shows field base between := by
    have hset := (h.setContainer last.page filled).setHeader
      { contents.header with openContainer := some last.page }
    rw [← h.header] at hset
    rw [hbetween, ← h.header]
    exact hset
  have hlinked : between.Linked field.options.edges := hexpects.linked.congr rfl rfl rfl
  obtain ⟨graph', linked, hinsert, hnext, hrelinks, _, hlayered⟩ := hshows.exists_insert
    hlinked.toLayered hstored hexpects.two_le hnew hplace field.options.candidates
  refine ⟨graph', _, ?_, hnext, ?_⟩
  · rw [place, hpush]
    exact hinsert
  · exact {
      linked := { hlayered with
        maxLevel_le := FieldGraph.maxLevel_countNode_le hlinked.maxLevel_le _ hlevel }
      header := rfl
      members := (hrelinks.members 0).trans
        ((members_setNode hnew).trans (if_pos (Nat.zero_le _)))
      shelved := hshelved.congr hrelinks.container (FieldGraph.openContainer_countNode _ _ _)
      placed := fun shelf hshelf i found hfound =>
        hplaced.relinks hrelinks shelf hshelf i found hfound
      container := by
        intro page found hfound
        have hfound' : (if page = last.page then some filled else contents.container page) =
            some found := (congrFun hrelinks.container page).symm.trans hfound
        split_ifs at hfound' with hpage
        · refine .inl ⟨hpage, ?_⟩
          rw [← Option.some.inj hfound', hfilled.size, hoffers.roomy.holds_last.size]
        · exact .inr hfound' }

/-- A graph that has received a vector is sound with it.

**Proof sketch.** Every part holds of the vectors from before, and of the new one by what has been
received. -/
lemma Receives.sound {next : GraphContents} {header : GraphHeader}
    (h : Receives field { contents with header } next layout before last container vector level)
    (hsound : contents.Sound field ledger) (hadmits : Admits field ledger vector)
    (hheader : header = fixLengths contents.header vector.raw.length vector.stored.length)
    (hraw : header.rawLength = vector.raw.length)
    (hstored : header.vectorLength = vector.stored.length)
    (hrawlt : vector.raw.length < UInt64.size) (hstoredle : vector.stored.length ≤ maxStoredLength)
    (hlayout : ContainerLayout.forVectorLength? vector.stored.length = some layout)
    (hfits : layout.Fits) (hlength : layout.vectorLength = vector.stored.length)
    (hvectors : before.flatMap Shelf.vectors ++ last.vectors = ledger) :
    next.Sound field (ledger ++ [vector]) := by
  have hnextraw : next.header.rawLength = vector.raw.length := by
    rw [h.header, FieldGraph.rawLength_countNode, hraw]
  have hnextstored : next.header.vectorLength = vector.stored.length := by
    rw [h.header, FieldGraph.vectorLength_countNode, hstored]
  have hcount : header.nodeCount = contents.header.nodeCount := by
    rw [hheader, fixLengths]
    split_ifs <;> rfl
  -- What holds of the vectors accepted before and of the new one holds of all.
  have hall : ∀ {P : Accepted → Prop}, (∀ found ∈ ledger, P found) → P vector →
      ∀ found ∈ ledger ++ [vector], P found := fun hold hnew found hfound =>
    (List.mem_append.mp hfound).elim (hold found) fun hin => List.mem_singleton.mp hin ▸ hnew
  have hnodup : ((ledger ++ [vector]).map Accepted.id).Nodup := by
    rw [List.map_append]
    refine List.nodup_append.mpr ⟨hsound.nodup, List.nodup_singleton _, ?_⟩
    rintro id hid other hother rfl
    exact hadmits.new (List.mem_singleton.mp hother ▸ hid)
  have haccepted := hall hsound.accepted hadmits.accepted
  exact {
    linked := h.linked
    nodup := hnodup
    accepted := haccepted
    encoded := hall hsound.encoded hadmits.encoded
    rawLength := hall (fun found hfound => by
      rw [hnextraw, hadmits.rawLength hsound (List.ne_nil_of_mem hfound),
        hsound.rawLength found hfound])
      hnextraw.symm
    storedLength := hall (fun found hfound => by
      rw [hnextstored, hadmits.storedLength hsound (List.ne_nil_of_mem hfound),
        hsound.storedLength found hfound]) hnextstored.symm
    fixedLength := hall hsound.fixedLength hadmits.fixedLength
    registered := by
      intro id
      have hold : id ∈ ({ contents with header } : GraphContents).members 0 ↔
          id ∈ ledger.map Accepted.id := hsound.registered id
      rw [h.members, Set.mem_insert_iff, hold, List.map_append, List.mem_append, List.map_singleton,
        List.mem_singleton, or_comm]
    nodeCount := by
      have hlt := length_lt_of_nodup_accepted hnodup haccepted
      rw [List.length_append, List.length_singleton] at hlt ⊢
      rw [h.header, FieldGraph.nodeCount_countNode]
      change (header.nodeCount + 1) % UInt64.size = ledger.length + 1
      rw [hcount, hsound.nodeCount, Nat.mod_eq_of_lt hlt]
    blank := fun hempty => absurd hempty (by simp)
    rawLength_lt := hnextraw ▸ hrawlt
    vectorLength_le := hnextstored ▸ hstoredle
    shelved := ⟨layout, _, h.shelved, h.placed, by
      rw [List.flatMap_append, List.flatMap_singleton, ← List.append_assoc, hvectors],
      fun _ => by rw [hnextstored]; exact ⟨hlayout, hfits, hlength⟩⟩ }

/-- A graph that has received a vector is backed by the transaction. -/
lemma Receives.backed {next : GraphContents}
    (h : Receives field contents next layout before last container vector level)
    (hbacked : contents.Backed txn.view)
    (hoffers : Offers contents layout txn txn' ledger before last container) :
    next.Backed txn'.view := by
  intro page found hfound
  rcases h.container page found hfound with ⟨rfl, hsize⟩ | hold
  · obtain ⟨run, hrun, hrunsize⟩ := hoffers.run
    exact ⟨hoffers.page_lt, run, hrun, hrunsize.trans hsize.symm⟩
  · obtain ⟨hlt, run, hrun, hrunsize⟩ := hbacked page found hold
    refine ⟨UInt64.lt_of_lt_of_le hlt hoffers.extends_txn.nextPage_le, run, ?_, hrunsize⟩
    rw [hoffers.extends_txn.run page hlt, hrun]

end Placement

/-- **A vector that is admitted is inserted**: the insertion succeeds at any level, the graph is
sound with the vector, and the transaction has at most handed out one more run.

**Proof sketch.** The first vector fixes the lengths of the field, and with them the layout of its
containers. There is a container with a free slot, the vector goes into it, and its node is
linked. -/
theorem exists_insert (hoptions : session.field.options.Accepted)
    (h : session.graph.Shows session.field base contents)
    (hsound : contents.Sound session.field ledger) (hbacked : contents.Backed session.txn.view)
    (hpages : session.txn.nextPage.toNat + UInt32.size ≤ UInt64.size) {vector : Accepted}
    (hadmits : Admits session.field ledger vector)
    (hraw : vector.raw.length < UInt64.size) (hstored : vector.stored.length ≤ maxStoredLength)
    {level : Nat} (hlevel : level ≤ maxLevel) :
    ∃ txn' graph' next, session.insert vector.id vector.raw.length vector.stored level =
        (txn', .ok graph') ∧ session.txn.Extends txn' ∧ graph'.Shows session.field base next ∧
      next.Sound session.field (ledger ++ [vector]) ∧ next.Backed txn'.view ∧
      ∀ page, (next.container page).isSome = true →
        (contents.container page).isSome = true ∨ session.txn.nextPage ≤ page.number := by
  set header := fixLengths contents.header vector.raw.length vector.stored.length with hheader
  obtain ⟨hrawLength, hvectorLength, layout, shelves, hlayout, hfits, hlength, hshelved, hplaced,
    hledger⟩ := exists_layout hsound hadmits hstored hheader
  have hshows : ({ session.graph with
      header := fixLengths session.graph.header vector.raw.length vector.stored.length } :
      FieldGraph).Shows session.field base { contents with header } := by
    rw [h.header]
    exact h.setHeader header
  have hentry : header.entryPoint = contents.header.entryPoint ∧
      header.maxLevel = contents.header.maxLevel := by
    rw [hheader, fixLengths]
    split_ifs <;> exact ⟨rfl, rfl⟩
  have hlayout' : ContainerLayout.forVectorLength? header.vectorLength = some layout := by
    rw [hvectorLength, hlayout]
  obtain ⟨txn', before, last, container, hallocate, hoffers⟩ :=
    exists_allocate hshows hfits hshelved hplaced hbacked hpages
  rw [hledger] at hoffers
  have hexpects : Expects session.field { contents with header } layout ledger vector := {
    linked := hsound.linked.congr rfl hentry.1 hentry.2
    two_le := hoptions.two_le_edges
    registered := fun id hid => (hsound.registered id).mp hid
    layout_eq := hlayout'
    fits := hfits
    length_eq := hlength.symm
    new := hsound.node_eq_none_iff.mpr hadmits.new }
  obtain ⟨graph', next, hplace, hnext, hreceives⟩ := exists_place hshows hexpects hoffers hlevel
  refine ⟨txn', graph', next, ?_, hoffers.extends_txn, hnext, ?_, hreceives.backed hbacked hoffers,
    fun page hpage => ?_⟩
  · simp only [insert, hshows.layout_eq hlayout', hallocate, hplace]
  · exact hreceives.sound hsound hadmits hheader hrawLength hvectorLength hraw hstored hlayout hfits
      hlength hoffers.vectors_eq
  · obtain ⟨found, hfound⟩ := Option.isSome_iff_exists.mp hpage
    rcases hreceives.container page found hfound with ⟨rfl, _⟩ | hold
    · exact hoffers.page_new
    · exact .inl (by rw [show contents.container page = some found from hold, Option.isSome_some])

/-- The containers for vectors that are too long for any page run have one slot, in which no vector
of that length fits.

**Proof sketch.** The container has one slot. Its run has fewer than `2 ^ 32` pages, whatever the
length is, and the vector is longer than that. -/
lemma exists_push_eq_error {length : Nat} (hlong : maxStoredLength < length) :
    ∃ layout, ContainerLayout.forVectorLength? length = some layout ∧
      layout.pages < UInt32.size ∧ ∀ page id bytes, bytes.length = length →
        ∃ e, (Container.blank layout).push layout page id bytes = .error e := by
  have hlarge : maxContainerPages * pageSize < length :=
    Nat.lt_of_le_of_lt (by decide) hlong
  have hslots : slotsPerContainer length = 1 := by
    rw [slotsPerContainer, if_neg (by omega), Nat.div_eq_of_lt hlarge]
    rfl
  -- The page count is kept in 32 bits, so the run is short, whatever the length is.
  generalize hpages : pagesForBytes (1 * length) % UInt32.size = pages
  have hlt : pages < UInt32.size := hpages ▸ Nat.mod_lt _ (by decide)
  refine ⟨⟨length, 1, pages⟩, ?_, hlt, fun page id bytes hbytes => ⟨.slotOutsideRun page 0, ?_⟩⟩
  · simp only [ContainerLayout.forVectorLength?, hslots, if_neg Nat.one_ne_zero, hpages]
  have hnone : (Run.blank pages).overwrite? 0 bytes = none := by
    have hsize : pageSize * pages ≤ maxStoredLength :=
      Nat.mul_le_mul_left pageSize (Nat.le_sub_one_of_lt hlt)
    rw [Run.overwrite?, Run.blank, Array.size_replicate, Nat.mul_comm pages, Nat.zero_add, hbytes,
      if_neg (Nat.not_le.mpr (Nat.lt_of_le_of_lt hsize hlong))]
  simp [Container.push, Container.blank, Container.used, hbytes, ContainerLayout.slotOffset, hnone]

/-- **The insertion of a vector fails if it is too long for any page run.** The transaction has then
at most handed out one more run.

**Proof sketch.** Such a vector is the first of its field. A container of one slot is handed out,
and it cannot take the vector. -/
theorem exists_insert_eq_error (h : session.graph.Shows session.field base contents)
    (hsound : contents.Sound session.field ledger)
    (hpages : session.txn.nextPage.toNat + UInt32.size ≤ UInt64.size) {vector : Accepted}
    (hadmits : Admits session.field ledger vector)
    (hlong : maxStoredLength < vector.stored.length) (level : Nat) :
    ∃ txn' e, session.insert vector.id vector.raw.length vector.stored level = (txn', .error e) ∧
      session.txn.Extends txn' := by
  -- Only the first vector of a field can be that long.
  have hblank : session.graph.header = .blank := by
    rw [h.header]
    refine hsound.blank (by_contra fun hne => ?_)
    have hle := hsound.vectorLength_le
    rw [← hadmits.storedLength hsound hne] at hle
    omega
  obtain ⟨layout, hlayout, hlt, hpush⟩ := exists_push_eq_error hlong
  set graph : FieldGraph := { session.graph with
    header := fixLengths session.graph.header vector.raw.length vector.stored.length } with hgraph
  have hheader : graph.header = { GraphHeader.blank with
      rawLength := vector.raw.length, vectorLength := vector.stored.length } := by
    rw [hgraph, hblank]
    rfl
  have hroomy : roomyContainer graph layout = .ok none := by
    rw [roomyContainer, hheader]
    rfl
  have hlayout' : graph.layout = .ok layout := by
    simp only [FieldGraph.layout, hheader, hlayout]
  by_cases hzero : layout.pages = 0
  · obtain ⟨cause, hallocate⟩ : ∃ cause, session.txn.allocate layout.pages = .error cause :=
      ⟨_, if_pos hzero⟩
    refine ⟨session.txn, .storage cause, ?_, .refl session.txn⟩
    simp only [insert, ← hgraph, hlayout', allocate, hroomy, hallocate]
  · obtain ⟨txn', hallocate, hextends, _⟩ :=
      session.txn.exists_allocate_extends (Nat.pos_of_ne_zero hzero) hlt hpages
    obtain ⟨e, he⟩ := hpush ⟨session.txn.nextPage⟩ vector.id vector.stored rfl
    refine ⟨txn', e, ?_, hextends⟩
    simp only [insert, ← hgraph, hlayout', allocate, hroomy, hallocate, place, he,
      Except.error_bind]

end Registration

end Proximity

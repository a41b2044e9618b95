import Proximity.Proofs.Registration.Twins
import Proximity.Proofs.Store.Resemblance

set_option relaxedAutoImplicit false
set_option autoImplicit false

/-!
# Sessions that differ in places only

Two sessions on one field can run where different page runs have been handed out before. If their
graphs are equal but for places and they draw levels from the same source, they answer every vector
alike, and what they write is equal but for places again. They also hand out page runs at the same
vectors, because a container is full after a number of vectors that does not depend on where it
lies.

## Main definitions

* `Proximity.Registration.Resembles` — two sessions that are equal but for places.
* `Proximity.Registration.Disabled` — two sessions that have failed at the same vector.

## Main results

* `Proximity.Registration.nextPage_insert_le` — page runs are handed out at the same vectors.
* `Proximity.Registration.exists_started` — sessions that are opened resemble each other.
* `Proximity.Registration.Resembles.registerAtLevel_cases` — they answer every vector alike.
* `Proximity.Registration.Resembles.exists_commit` — they write the same but for places.
-/

namespace Proximity.Registration

open FieldGraph

variable {session session' : Registration} {field : FieldRecord} {graph graph' : FieldGraph}
  {base base' contents contents' : GraphContents} {vectors : List Accepted}
  {layout : ContainerLayout} {txn txn' : WriteTransaction}

/-! ## Free slots -/

/-- Full shelves hold as many vectors as there are slots on them. -/
lemma length_flatMap_of_full {shelves : List Shelf} {slots : Nat}
    (h : ∀ shelf ∈ shelves, shelf.vectors.length = slots) :
    (shelves.flatMap Shelf.vectors).length = slots * shelves.length := by
  induction shelves with
  | nil => rfl
  | cons shelf shelves ih =>
    obtain ⟨hshelf, hshelves⟩ := List.forall_mem_cons.mp h
    rw [List.flatMap_cons, List.length_append, hshelf, ih hshelves, List.length_cons, Nat.mul_succ,
      Nat.add_comm]

/-- **Whether the open container has a free slot** is settled by the number of vectors.

**Proof sketch.** All containers but the last are full, so that the last one is full exactly if the
slots divide the number of vectors. -/
theorem exists_roomyContainer (h : graph.Shows field base contents)
    (hsound : contents.Sound field vectors) {raw length : Nat}
    (hlayout : ({ graph with header := fixLengths graph.header raw length } : FieldGraph).layout =
      .ok layout) :
    ∃ found, roomyContainer { graph with header := fixLengths graph.header raw length } layout =
        .ok found ∧ found.isSome = decide (vectors.length % layout.slots ≠ 0) := by
  by_cases hempty : vectors = []
  · have hopen : (fixLengths graph.header raw length).openContainer = none := by
      rw [h.header, hsound.blank hempty]
      rfl
    exact ⟨none, by simp only [roomyContainer, hopen], by simp [hempty]⟩
  obtain ⟨layout', shelves, hshelved, _, rfl, hfixed⟩ := hsound.shelved
  have hheader : fixLengths graph.header raw length = graph.header := by
    rw [h.header, fixLengths, if_neg (Nat.ne_of_gt (hsound.vectorLength_pos_iff.mpr hempty))]
  rw [hheader] at hlayout ⊢
  obtain rfl : layout' = layout :=
    Except.ok.inj ((h.layout_eq (hfixed hempty).1).symm.trans hlayout)
  rcases List.eq_nil_or_concat shelves with rfl | ⟨before, last, rfl⟩
  · exact absurd rfl hempty
  rw [List.concat_eq_append] at hshelved ⊢
  obtain ⟨container, _, hholds, hroomy⟩ := exists_roomyContainer_concat h hshelved
  refine ⟨_, hroomy, ?_⟩
  have hbefore := length_flatMap_of_full fun shelf hshelf =>
    hshelved.full shelf (by rwa [List.dropLast_concat])
  have hpos := List.length_pos_iff.mpr (hshelved.nonempty last (by simp))
  have hle := hholds.length_le
  rw [List.length_map] at hle
  rw [List.flatMap_append, List.flatMap_singleton, List.length_append, hbefore,
    Nat.mul_add_mod]
  by_cases hroom : last.vectors.length < layout'.slots
  · rw [if_pos hroom, Nat.mod_eq_of_lt hroom]
    simp [Nat.ne_of_gt hpos]
  · rw [if_neg hroom, Nat.le_antisymm hle (Nat.not_lt.mp hroom), Nat.mod_self]
    simp

/-- A run is handed out on both sides or on neither.

**Proof sketch.** Both hand out a run of the same length, from the lower of two page numbers and the
greater, or none. -/
lemma nextPage_allocate_le {found found' : Option (PageId × Container)}
    (hroomy : roomyContainer graph layout = .ok found)
    (hroomy' : roomyContainer graph' layout = .ok found') (hsame : found'.isSome = found.isSome)
    (hnext : txn'.nextPage ≤ txn.nextPage) (hlt : layout.pages < UInt32.size)
    (hpages : txn.nextPage.toNat + UInt32.size ≤ UInt64.size) :
    (allocate txn' graph' layout).1.nextPage ≤ (allocate txn graph layout).1.nextPage := by
  simp only [allocate, hroomy, hroomy']
  cases found with
  | some found =>
    obtain ⟨found', rfl⟩ := Option.isSome_iff_exists.mp hsame
    exact hnext
  | none =>
    obtain rfl : found' = none := by simpa using hsame
    simp only [WriteTransaction.allocate]
    split_ifs
    · exact hnext
    · rw [UInt64.le_iff_toNat_le] at hnext ⊢
      have hadd : ∀ start : UInt64, start.toNat + UInt32.size ≤ UInt64.size →
          (start + UInt64.ofNat layout.pages).toNat = start.toNat + layout.pages := by
        intro start hstart
        have hsize : layout.pages < UInt64.size := by omega
        rw [UInt64.toNat_add, UInt64.toNat_ofNat_of_lt' hsize, Nat.mod_eq_of_lt]
        show _ < UInt64.size
        omega
      rw [hadd _ hpages, hadd _ (by omega)]
      omega

/-- The transaction after an insertion, whether the insertion succeeds or not. -/
lemma fst_insert (session : Registration) (id : VectorId) (raw : Nat) (encoded : Bytes)
    (level : Nat) : (session.insert id raw encoded level).1 =
      match ({ session.graph with header := fixLengths session.graph.header raw encoded.length } :
        FieldGraph).layout with
      | .error _ => session.txn
      | .ok layout => (allocate session.txn { session.graph with
          header := fixLengths session.graph.header raw encoded.length } layout).1 := by
  cases hlayout : ({ session.graph with
    header := fixLengths session.graph.header raw encoded.length } : FieldGraph).layout with
  | error e => simp only [insert, hlayout]
  | ok layout =>
    rcases hallocate : allocate session.txn { session.graph with
      header := fixLengths session.graph.header raw encoded.length } layout with ⟨txn, e | found⟩
    · simp only [insert, hlayout, hallocate]
    · simp only [insert, hlayout, hallocate]

/-- The first vector fixes the same lengths. -/
lemma placeless_fixLengths {header header' : GraphHeader}
    (h : header'.placeless = header.placeless) (raw encoded : Nat) :
    (fixLengths header' raw encoded).placeless = (fixLengths header raw encoded).placeless := by
  obtain ⟨hentry, hlevel, hcount, hraw, hlength⟩ := GraphHeader.placeless_eq_iff.mp h
  refine GraphHeader.placeless_eq_iff.mpr ?_
  simp only [fixLengths, hlength]
  split
  · exact ⟨hentry, hlevel, hcount, rfl, rfl⟩
  · exact ⟨hentry, hlevel, hcount, hraw, hlength⟩

/-- The geometry of the containers does not depend on where anything is placed. -/
lemma layout_fixLengths (h : graph'.header.placeless = graph.header.placeless)
    (raw length : Nat) :
    ({ graph' with header := fixLengths graph'.header raw length } : FieldGraph).layout =
      ({ graph with header := fixLengths graph.header raw length } : FieldGraph).layout := by
  obtain ⟨_, _, _, _, hlength⟩ :=
    GraphHeader.placeless_eq_iff.mp (placeless_fixLengths h raw length)
  rw [layout, layout, hlength]

/-- **Page runs are handed out at the same vectors.**

**Proof sketch.** The layouts are equal, and whether there is a free slot is the same on both
sides. -/
theorem nextPage_insert_le (h : session.graph.Shows field base contents)
    (h' : session'.graph.Shows field base' contents') (hsound : contents.Sound field vectors)
    (hsound' : contents'.Sound field vectors)
    (hheader : session'.graph.header.placeless = session.graph.header.placeless)
    (hnext : session'.txn.nextPage ≤ session.txn.nextPage)
    (hpages : session.txn.nextPage.toNat + UInt32.size ≤ UInt64.size) (id : VectorId) (raw : Nat)
    (encoded : Bytes) (level : Nat) :
    (session'.insert id raw encoded level).1.nextPage ≤
      (session.insert id raw encoded level).1.nextPage := by
  have hsame := layout_fixLengths hheader raw encoded.length
  rw [fst_insert, fst_insert, hsame]
  cases hlayout : ({ session.graph with
    header := fixLengths session.graph.header raw encoded.length } : FieldGraph).layout with
  | error e => exact hnext
  | ok layout =>
    obtain ⟨found, hroomy, hfound⟩ := exists_roomyContainer h hsound hlayout
    obtain ⟨found', hroomy', hfound'⟩ := exists_roomyContainer h' hsound' (hsame.trans hlayout)
    exact nextPage_allocate_le hroomy hroomy' (hfound'.trans hfound.symm) hnext
      (pages_lt_of_layout hlayout) hpages

/-! ## Insertions -/

/-- **Two insertions that succeed** leave graphs that resemble each other, if all vectors are equal
in the end.

**Proof sketch.** The linking looks at distances and links only, which are the same on both
sides. -/
theorem resembles_of_insert (h : session.graph.SameShape session'.graph)
    (hfield : session'.field = session.field) {id : VectorId} {raw level : Nat} {encoded : Bytes}
    (hinsert : session.insert id raw encoded level = (txn, .ok graph))
    (hinsert' : session'.insert id raw encoded level = (txn', .ok graph'))
    (hvector : ∀ other node, graph.node other = .ok node →
      graph'.vector other = graph.vector other) : graph.Resembles graph' := by
  obtain ⟨layout, page, container, _, _, hplace⟩ := exists_of_insert hinsert
  obtain ⟨layout', page', container', _, _, hplace'⟩ := exists_of_insert hinsert'
  obtain ⟨⟨location, filled⟩, _, hlinked⟩ := Except.bind_eq_ok_iff.mp hplace
  obtain ⟨⟨location', filled'⟩, _, hlinked'⟩ := Except.bind_eq_ok_iff.mp hplace'
  rw [hfield] at hlinked'
  have hshape : ({ session.graph.setContainer page filled with
      header := { fixLengths session.graph.header raw encoded.length with
        openContainer := some page } } : FieldGraph).SameShape
      { session'.graph.setContainer page' filled' with
        header := { fixLengths session'.graph.header raw encoded.length with
          openContainer := some page' } } :=
    ⟨h.field, h.codec, placeless_fixLengths h.header raw encoded.length, h.node⟩
  exact hshape.resembles_of_insert hlinked hlinked' hvector

/-! ## Sessions -/

variable {ledger ledger' : Ledger} {added : List Accepted}

/-- **Two sessions on one field resemble each other**: they are sound, the field has accepted the
same vectors, the graphs are equal but for places, and levels come from the same source. The second
session has handed out no more pages than the first. -/
structure Resembles (ledger ledger' : Ledger) (added : List Accepted)
    (session session' : Registration) : Prop where
  left : session.Running ledger added
  right : session'.Running ledger' added
  field : session'.field = session.field
  accepted : ledger' session.field.name = ledger session.field.name
  generator : session'.generator = session.generator
  graph : session.graph.SameShape session'.graph
  nextPage : session'.txn.nextPage ≤ session.txn.nextPage

namespace Resembles

/-- Resemblance does not depend on the generators. -/
lemma withGenerator (h : Resembles ledger ledger' added session session')
    (generator : Generator) :
    Resembles ledger ledger' added { session with generator } { session' with generator } where
  left := h.left.withGenerator generator
  right := h.right.withGenerator generator
  field := h.field
  accepted := h.accepted
  generator := rfl
  graph := h.graph
  nextPage := h.nextPage

/-- Both sessions check a vector alike. -/
lemma check_eq (h : Resembles ledger ledger' added session session') (id : UInt64)
    (raw : Bytes) : session'.check id raw = session.check id raw := by
  obtain ⟨_, _, _, hraw, hlength⟩ := GraphHeader.placeless_eq_iff.mp h.graph.header
  have hlengths : session'.checkLengths = session.checkLengths := by
    funext rawLength storedLength
    rw [checkLengths, checkLengths, h.field, hraw, hlength]
  have hcontains : session'.graph.contains ⟨id⟩ = session.graph.contains ⟨id⟩ := by
    rw [FieldGraph.contains, FieldGraph.contains, ← Std.TreeMap.contains_keys,
      ← Std.TreeMap.contains_keys, h.graph.keys_eq]
  rw [check, check, h.left.failure, h.right.failure, h.graph.codec, hlengths, hcontains]

/-- Both sessions register a vector that passes the check at the same level. -/
lemma exists_registerAtLevel_eq (h : Resembles ledger ledger' added session session')
    {id : UInt64} {raw stored : Bytes} (hcheck : session.check id raw = .ok stored)
    {level : Option Nat} (hlevel : ∀ l, level = some l → l ≤ maxLevel) :
    ∃ generator chosen, chosen ≤ maxLevel ∧
      session.registerAtLevel id raw level =
        ({ session with generator } : Registration).registerAt id raw.length stored chosen ∧
      session'.registerAtLevel id raw level =
        ({ session' with generator } : Registration).registerAt id raw.length stored chosen := by
  have hcheck' := (h.check_eq id raw).trans hcheck
  cases level with
  | some chosen =>
    refine ⟨session.generator, chosen, hlevel chosen rfl, ?_, ?_⟩
    · simp only [Registration.registerAtLevel, hcheck]
    · simp only [Registration.registerAtLevel, hcheck', ← h.generator]
  | none =>
    simp only [Registration.registerAtLevel, register, hcheck, hcheck', drawLevel, h.generator,
      h.field]
    rcases session.generator.uniform with ⟨uniform, generator⟩
    exact ⟨generator, _, Nat.min_le_right _ _, rfl, rfl⟩

/-- What is known of the graphs of sessions that resemble each other. -/
lemma exists_contents (h : Resembles ledger ledger' added session session') :
    ∃ base base' contents contents', session.graph.Shows session.field base contents ∧
      session'.graph.Shows session.field base' contents' ∧
      contents.Sound session.field (ledger session.field.name ++ added) ∧
      contents'.Sound session.field (ledger session.field.name ++ added) := by
  obtain ⟨base, contents, _, hshows, hsound, _⟩ := h.left.graph
  obtain ⟨base', contents', _, hshows', hsound', _⟩ := h.right.graph
  rw [h.field] at hshows' hsound'
  rw [h.accepted] at hsound'
  exact ⟨base, base', contents, contents', hshows, hshows', hsound, hsound'⟩

end Resembles

/-! ## Registering -/

/-- Registering a vector at a given level draws no number. -/
lemma generator_registerAt (session : Registration) (id : UInt64) (raw : Nat) (encoded : Bytes)
    (level : Nat) : (session.registerAt id raw encoded level).1.generator = session.generator := by
  unfold registerAt
  split <;> rfl

namespace Resembles

variable {id : UInt64} {raw stored : Bytes} {level : Nat}

/-- Both sessions insert a vector that is not too long.

**Proof sketch.** Both sessions are running, so that the insertions succeed. They leave graphs that
resemble each other, with the same vectors. -/
lemma exists_registerAt (h : Resembles ledger ledger' added session session')
    (hcheck : session.check id raw = .ok stored) (hstored : stored.length ≤ maxStoredLength)
    (hpages : session.txn.nextPage.toNat + UInt32.size ≤ UInt64.size) (hlevel : level ≤ maxLevel) :
    ∃ next next', session.registerAt id raw.length stored level = (next, .ok ()) ∧
      session'.registerAt id raw.length stored level = (next', .ok ()) ∧
      next.field = session.field ∧
      Resembles ledger ledger' (added ++ [⟨⟨id⟩, raw, stored⟩]) next next' := by
  have hpages' : session'.txn.nextPage.toNat + UInt32.size ≤ UInt64.size :=
    (Nat.add_le_add_right (UInt64.le_iff_toNat_le.mp h.nextPage) _).trans hpages
  obtain ⟨next, hregister, hrunning⟩ :=
    h.left.exists_registerAt_of_check hcheck (fun _ => hstored) hpages hlevel
  obtain ⟨next', hregister', hrunning'⟩ := h.right.exists_registerAt_of_check
    ((h.check_eq id raw).trans hcheck) (fun _ => hstored) hpages' hlevel
  obtain ⟨hinsert, hfield⟩ := exists_of_registerAt hregister
  obtain ⟨hinsert', hfield'⟩ := exists_of_registerAt hregister'
  have hgenerator := session.generator_registerAt id raw.length stored level
  have hgenerator' := session'.generator_registerAt id raw.length stored level
  rw [hregister] at hgenerator
  rw [hregister'] at hgenerator'
  obtain ⟨base, base', contents, contents', hshows, hshows', hsound, hsound'⟩ := h.exists_contents
  have hnext := nextPage_insert_le hshows hshows' hsound hsound' h.graph.header h.nextPage hpages
    ⟨id⟩ raw.length stored level
  rw [hinsert, hinsert'] at hnext
  obtain ⟨_, _, _, hlast, hlastSound, _⟩ := hrunning.graph
  obtain ⟨_, _, _, hlast', hlastSound', _⟩ := hrunning'.graph
  rw [hfield] at hlast hlastSound
  rw [hfield', h.field] at hlast' hlastSound'
  rw [h.accepted] at hlastSound'
  have hgraph := resembles_of_insert h.graph h.field hinsert hinsert' fun _ _ hnode =>
    hlastSound.vector_eq hlastSound' hlast hlast' hnode
  refine ⟨next, next', hregister, hregister', hfield, ?_⟩
  exact {
    left := hrunning
    right := hrunning'
    field := hfield'.trans (h.field.trans hfield.symm)
    accepted := by rw [hfield, h.accepted]
    generator := hgenerator'.trans (h.generator.trans hgenerator.symm)
    graph := hgraph.toSameShape
    nextPage := hnext }

end Resembles

/-- **Two sessions have failed at the same vector**, though the reason may name a page. -/
structure Disabled (session session' : Registration) : Prop where
  field : session'.field = session.field
  failure : ∃ id reason reason', session.failure = some (id, reason) ∧
    session'.failure = some (id, reason')
  nextPage : session'.txn.nextPage ≤ session.txn.nextPage

namespace Resembles

variable {id : UInt64} {raw stored : Bytes} {level : Nat}

/-- Both sessions fail at a vector that is too long for any page run.

**Proof sketch.** In both sessions the vector is the first one and fits in no container. -/
lemma exists_registerAt_eq_error (h : Resembles ledger ledger' added session session')
    (hcheck : session.check id raw = .ok stored) (hstored : maxStoredLength < stored.length)
    (hpages : session.txn.nextPage.toNat + UInt32.size ≤ UInt64.size) (level : Nat) :
    ∃ next next' e e',
      session.registerAt id raw.length stored level = (next, .error (.registrationFailed id e)) ∧
      session'.registerAt id raw.length stored level =
        (next', .error (.registrationFailed id e')) ∧
      next.field = session.field ∧ Disabled next next' := by
  have hpages' : session'.txn.nextPage.toNat + UInt32.size ≤ UInt64.size :=
    (Nat.add_le_add_right (UInt64.le_iff_toNat_le.mp h.nextPage) _).trans hpages
  obtain ⟨base, base', contents, contents', hshows, hshows', hsound, hsound'⟩ := h.exists_contents
  have hadmits := h.left.admits_of_check hcheck
  obtain ⟨txn, e, hinsert, _⟩ := exists_insert_eq_error hshows hsound hpages hadmits hstored level
  obtain ⟨txn', e', hinsert', _⟩ := exists_insert_eq_error (h.field.symm ▸ hshows')
    (h.field.symm ▸ hsound') hpages' (h.field.symm ▸ hadmits) hstored level
  have hnext := nextPage_insert_le hshows hshows' hsound hsound' h.graph.header h.nextPage hpages
    ⟨id⟩ raw.length stored level
  rw [hinsert, hinsert'] at hnext
  refine ⟨{ session with txn, failure := some (id, e.message) },
    { session' with txn := txn', failure := some (id, e'.message) }, e, e', ?_, ?_, rfl, ?_⟩
  · simp only [registerAt, hinsert]
  · simp only [registerAt, hinsert']
  · exact ⟨h.field, ⟨id, _, _, rfl, rfl⟩, hnext⟩

/-- **Sessions that resemble each other answer a vector alike**, at a level that is given or drawn:
both refuse it and stay as they are, both accept it, or both fail because it is too long for any
page run.

**Proof sketch.** The check has the same answer in both sessions. A vector that passes it is
inserted at the same level in both, and it depends on its length whether it can be. -/
theorem registerAtLevel_cases (h : Resembles ledger ledger' added session session') (id : UInt64)
    (raw : Bytes) (hpages : session.txn.nextPage.toNat + UInt32.size ≤ UInt64.size)
    {level : Option Nat} (hlevel : ∀ l, level = some l → l ≤ maxLevel) :
    (∃ e, session.registerAtLevel id raw level = (session, .error e) ∧
      session'.registerAtLevel id raw level = (session', .error e)) ∨
    (∃ next next' stored, session.registerAtLevel id raw level = (next, .ok ()) ∧
      session'.registerAtLevel id raw level = (next', .ok ()) ∧
      (Codec.ofOptions session.field.options).encode raw = .ok stored ∧
      next.field = session.field ∧
      Resembles ledger ledger' (added ++ [⟨⟨id⟩, raw, stored⟩]) next next') ∨
    maxStoredLength < raw.length + 4 ∧ ∃ next next' e e',
      session.registerAtLevel id raw level = (next, .error (.registrationFailed id e)) ∧
      session'.registerAtLevel id raw level = (next', .error (.registrationFailed id e')) ∧
      next.field = session.field ∧ Disabled next next' := by
  have hsame := h.check_eq id raw
  cases hcheck : session.check id raw with
  | error e =>
    rw [hcheck] at hsame
    refine .inl ⟨e, ?_, ?_⟩
    · cases level <;> simp only [registerAtLevel, register, hcheck]
    · cases level <;> simp only [registerAtLevel, register, hsame]
  | ok stored =>
    obtain ⟨generator, chosen, hchosen, hregister, hregister'⟩ :=
      h.exists_registerAtLevel_eq hcheck hlevel
    have hdrawn := h.withGenerator generator
    have hencoded := (h.left.admits_of_check hcheck).encoded
    have hcheck' : ({ session with generator } : Registration).check id raw = .ok stored := hcheck
    rw [hregister, hregister']
    by_cases hlong : maxStoredLength < stored.length
    · refine .inr (.inr ⟨?_, hdrawn.exists_registerAt_eq_error hcheck' hlong hpages chosen⟩)
      have hle := encodedLength_le session.field.options.source session.field.options.destination
        raw.length
      have hlength : stored.length = encodedLength session.field.options.source
          session.field.options.destination raw.length :=
        (length_encodeVector hencoded).1
      omega
    · obtain ⟨next, next', hnext, hnext', hfield, hresembles⟩ :=
        hdrawn.exists_registerAt hcheck' (Nat.not_lt.mp hlong) hpages hchosen
      exact .inr (.inl ⟨next, next', stored, hnext, hnext', hencoded, hfield, hresembles⟩)

end Resembles

/-! ## Opening and committing -/

/-- A session starts from a generator that follows from the configuration and the number of
nodes. -/
lemma generator_of_start {config : Config} {name : String}
    (h : start config txn name = .ok session) : session.generator =
      .ofSeed (sessionSeed (UInt64.ofNat config.seed)
        (UInt64.ofNat session.graph.header.nodeCount)) := by
  obtain ⟨field, _, h⟩ := Except.bind_eq_ok_iff.mp h
  obtain ⟨graph, _, h⟩ := Except.bind_eq_ok_iff.mp h
  dsimp only at h
  rw [← Except.ok.inj h]

/-- **Sessions that are opened** where a field resembles resemble each other, or there is no such
field.

**Proof sketch.** The definitions agree. If there is one, both sessions are opened with the graphs
of the two views. -/
theorem exists_started (config : Config) {name : String}
    (h : Snapshot.Resembles name txn.view txn'.view) (hview : txn.view.Sound ledger)
    (hview' : txn'.view.Sound ledger') (haccepted : ledger' name = ledger name)
    (hnext : txn'.nextPage ≤ txn.nextPage) :
    (∃ e, start config txn name = .error e ∧ start config txn' name = .error e) ∨
    ∃ session session', start config txn name = .ok session ∧
      start config txn' name = .ok session' ∧ session.txn = txn ∧ session'.txn = txn' ∧
      session.field.name = name ∧ Resembles ledger ledger' [] session session' := by
  cases hfind : Catalog.find txn.view name with
  | error e =>
    have hfind' := (Snapshot.find_congr h.definition).trans hfind
    refine .inl ⟨e, ?_, ?_⟩
    · rw [start, hfind, Except.error_bind]
    · rw [start, hfind', Except.error_bind]
  | ok field =>
    have hfind' := (Snapshot.find_congr h.definition).trans hfind
    obtain ⟨contents, contents', hholds, hholds', hsame⟩ := h.graph field hfind
    obtain ⟨hname, _⟩ := hview.valid hfind
    obtain ⟨session, hstart, htxn, hfield, hrunning, hshows, _⟩ :=
      exists_opened config hview hfind hholds
    obtain ⟨session', hstart', htxn', hfield', hrunning', hshows', _⟩ :=
      exists_opened config hview' hfind' hholds'
    have hshape := sameShape_of_shows hsame hshows hshows'
    refine .inr ⟨session, session', hstart, hstart', htxn, htxn', hfield ▸ hname, ?_⟩
    exact {
      left := hrunning
      right := hrunning'
      field := hfield'.trans hfield.symm
      accepted := by rw [hfield, hname, haccepted]
      generator := by
        rw [generator_of_start hstart, generator_of_start hstart',
          (GraphHeader.placeless_eq_iff.mp hshape.header).2.2.1]
      graph := hshape
      nextPage := by rwa [htxn, htxn'] }

/-- **Committing a session** makes the transaction hold what the graph shows, and changes no other
field. -/
theorem Running.exists_commit_keeps (h : session.Running ledger added) :
    ∃ base contents txn, session.graph.Shows session.field base contents ∧
      session.commit = .ok (added.length, txn) ∧ txn.view.Holds session.field.name contents ∧
      Snapshot.Keeps session.field.name session.txn.view txn.view ∧
      (∀ name, txn.view.get? (RecordKey.field name).bytes =
        session.txn.view.get? (RecordKey.field name).bytes) ∧
      txn.base = session.txn.base ∧ txn.nextPage = session.txn.nextPage := by
  obtain ⟨base, contents, _, hshows, _, _, hapart⟩ := h.graph
  obtain ⟨_, _, txn, hshown, hcommit, hflushed, _⟩ := h.exists_flushed
  obtain rfl := (Alike.refl session.txn.view.get? session.graph).contents_eq hshows hshown
  exact ⟨_, _, txn, hshows, hcommit, hflushed.holds, h.view.keeps_flushed h.field hflushed hapart,
    Snapshot.Sound.get?_field_of_flushed hflushed, hflushed.base, hflushed.nextPage⟩

/-- **Sessions that resemble each other** write fields that resemble each other.

**Proof sketch.** Each session writes its graph, and the graphs resemble each other. -/
theorem Resembles.exists_commit (h : Resembles ledger ledger' added session session')
    (hdefinition : session'.txn.view.get? (RecordKey.field session.field.name).bytes =
      session.txn.view.get? (RecordKey.field session.field.name).bytes) :
    ∃ txn txn', session.commit = .ok (added.length, txn) ∧
      session'.commit = .ok (added.length, txn') ∧
      Snapshot.Resembles session.field.name txn.view txn'.view ∧
      Snapshot.Keeps session.field.name session.txn.view txn.view ∧
      Snapshot.Keeps session.field.name session'.txn.view txn'.view ∧
      txn.base = session.txn.base ∧ txn'.base = session'.txn.base ∧
      txn'.nextPage ≤ txn.nextPage := by
  obtain ⟨base, contents, txn, hshows, hcommit, hholds, hkeeps, hfield, hbase, hnext⟩ :=
    h.left.exists_commit_keeps
  obtain ⟨base', contents', txn', hshows', hcommit', hholds', hkeeps', hfield', hbase', hnext'⟩ :=
    h.right.exists_commit_keeps
  rw [h.field] at hshows' hholds' hkeeps'
  refine ⟨txn, txn', hcommit, hcommit', ⟨?_, fun _ _ => ⟨contents, contents', hholds, hholds', ?_⟩⟩,
    hkeeps, hkeeps', hbase, hbase', ?_⟩
  · rw [hfield, hfield', hdefinition]
  · exact h.graph.contents_resembles hshows hshows'
  · rw [hnext, hnext']
    exact h.nextPage

end Proximity.Registration

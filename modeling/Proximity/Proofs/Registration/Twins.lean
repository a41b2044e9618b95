import Proximity.Proofs.Graph.Likeness
import Proximity.Proofs.Registration.Atomicity
import Proximity.Proofs.Session

set_option relaxedAutoImplicit false
set_option autoImplicit false

/-!
# Sessions that go on alike

A session can be followed by another that was opened later, on what the first one would have
written. The two take in the same vectors, put them into the same slots and hand out the same pages,
and when they are written they leave the same records.

## Main definitions

* `Proximity.Registration.Twins` — two sessions that go on alike.
* `Proximity.Registration.Mirrors` — a transaction that shows what a session would have written.

## Main results

* `Proximity.Registration.alike_of_insert` — alike graphs take in a vector alike.
* `Proximity.Registration.Twins.registerAtLevel` — registering a vector keeps sessions twins.
* `Proximity.Registration.Mirrors.exists_start`, `Proximity.Registration.Twins.exists_commit` — from
  a transaction to a session and back.
* `Proximity.Registration.Mirrors.agrees` — transactions that mirror one session agree.
-/

namespace Proximity

/-! ## Records that agree -/

/-- **Two snapshots agree on a field**: the header of its graph, the stored bytes of its nodes and
containers, and the page runs of the containers are the same. -/
structure Snapshot.Agrees (view : Snapshot) (name : String) (view' : Snapshot) : Prop where
  header : GraphHeader.find view' name = GraphHeader.find view name
  node : ∀ id, view'.get? (RecordKey.node name id).bytes = view.get? (RecordKey.node name id).bytes
  container : ∀ page, view'.get? (RecordKey.container name page).bytes =
    view.get? (RecordKey.container name page).bytes
  run : ∀ page, (view.get? (RecordKey.container name page).bytes).isSome = true →
    view'.run page = view.run page

namespace Registration

open FieldGraph

variable {session session' next : Registration} {txn txn' : WriteTransaction}
  {graph graph' : FieldGraph} {before before' : Bytes → Option Bytes} {field : FieldRecord}

/-! ## Insertions -/

/-- Alike graphs have the same free slot, in the open container or in the next page run.

**Proof sketch.** Alike graphs have the same open container. -/
lemma allocate_eq (h : Alike before before' graph graph') (hnext : txn'.nextPage = txn.nextPage)
    (layout : ContainerLayout) :
    (allocate txn' graph' layout).2 = (allocate txn graph layout).2 ∧
      (allocate txn' graph' layout).1.nextPage = (allocate txn graph layout).1.nextPage := by
  have hroomy : roomyContainer graph' layout = roomyContainer graph layout := by
    rw [roomyContainer, roomyContainer, h.header, h.container_eq]
  unfold allocate
  rw [hroomy]
  cases roomyContainer graph layout with
  | error e => exact ⟨rfl, hnext⟩
  | ok found =>
    cases found with
    | some found => exact ⟨rfl, hnext⟩
    | none =>
      simp only [WriteTransaction.allocate]
      split_ifs
      · exact ⟨rfl, hnext⟩
      · exact ⟨by rw [hnext], by rw [hnext]⟩

/-- Alike graphs put a vector away and link it alike. -/
lemma rel_place (h : Alike before before' graph graph') (options : FieldOptions)
    (layout : ContainerLayout) (page : PageId) (container : Container) (id : VectorId)
    (encoded : Bytes) (level : Nat) :
    Except.Rel (Alike before before')
      (place graph options layout page container id encoded level)
      (place graph' options layout page container id encoded level) := by
  refine Except.Rel.bind_left _ fun ⟨location, filled⟩ => ?_
  have hopened : Alike before before'
      { graph.setContainer page filled with
        header := { graph.header with openContainer := some page } }
      { graph'.setContainer page filled with
        header := { graph'.header with openContainer := some page } } := by
    rw [h.header]
    exact (h.setContainer page filled).withHeader _
  exact hopened.insert id location level options.edges options.candidates

/-- **Alike graphs take in a vector alike**, and the next page is the same then as well.

**Proof sketch.** The layouts are equal, hence so are the free slots, and the linking is done
alike. -/
theorem alike_of_insert (h : Alike before before' session.graph session'.graph)
    (hfield : session'.field = session.field)
    (hnext : session'.txn.nextPage = session.txn.nextPage) {id : VectorId} {raw level : Nat}
    {encoded : Bytes} (hinsert : session.insert id raw encoded level = (txn, .ok graph))
    (hinsert' : session'.insert id raw encoded level = (txn', .ok graph')) :
    Alike before before' graph graph' ∧ txn'.nextPage = txn.nextPage := by
  have hfixed : Alike before before'
      { session.graph with header := fixLengths session.graph.header raw encoded.length }
      { session'.graph with header := fixLengths session'.graph.header raw encoded.length } := by
    rw [h.header]
    exact h.withHeader _
  obtain ⟨layout, page, container, hlayout, hallocate, hplace⟩ := exists_of_insert hinsert
  obtain ⟨layout', page', container', hlayout', hallocate', hplace'⟩ := exists_of_insert hinsert'
  rw [hfixed.layout_eq, hlayout] at hlayout'
  obtain rfl := Except.ok.inj hlayout'
  obtain ⟨hfound, hpage⟩ := allocate_eq hfixed hnext layout
  rw [hallocate, hallocate'] at hfound hpage
  obtain ⟨rfl, rfl⟩ := Prod.mk.inj (Except.ok.inj hfound)
  have hplaced := rel_place hfixed session.field.options layout page' container' id encoded level
  rw [hfield] at hplace'
  rw [hplace, hplace'] at hplaced
  exact ⟨hplaced.of_ok, hpage⟩

/-! ## Twins -/

/-- **Two sessions are twins**: they are sound and on one field, and their graphs are alike. -/
structure Twins (session session' : Registration) : Prop where
  left : ∃ ledger added, session.Running ledger added
  right : ∃ ledger added, session'.Running ledger added
  field : session'.field = session.field
  graph : Alike session.txn.view.get? session'.txn.view.get? session.graph session'.graph

namespace Twins

/-- Twins check a vector alike. -/
lemma check_eq (h : Twins session session') (id : UInt64) (raw : Bytes) :
    session'.check id raw = session.check id raw := by
  obtain ⟨ledger, added, hleft⟩ := h.left
  obtain ⟨ledger', added', hright⟩ := h.right
  have hlengths : session'.checkLengths = session.checkLengths := by
    funext rawLength storedLength
    rw [checkLengths, checkLengths, h.field, h.graph.header]
  rw [check, check, hleft.failure, hright.failure, h.graph.codec, hlengths,
    h.graph.answersAlike.contains_eq]

end Twins

/-- A vector that passes the check of a session is admitted. -/
lemma Running.admits_of_check {ledger : Ledger} {added : List Accepted}
    (h : session.Running ledger added) {id : UInt64} {raw stored : Bytes}
    (hcheck : session.check id raw = .ok stored) :
    Admits session.field (ledger session.field.name ++ added) ⟨⟨id⟩, raw, stored⟩ := by
  obtain ⟨base, contents, _, hshows, hsound, _, _⟩ := h.graph
  obtain ⟨_, hvalid⟩ := h.view.valid h.field
  rcases check_cases hvalid.options h.failure hshows hsound id raw with
    ⟨e, herror, _⟩ | ⟨stored', hok, hadmits⟩
  · rw [hcheck] at herror
    cases herror
  · obtain rfl := Except.ok.inj (hcheck.symm.trans hok)
    exact hadmits

/-- A vector that passes the check of a session is registered, unless it is too long. -/
lemma Running.exists_registerAt_of_check {ledger : Ledger} {added : List Accepted}
    (h : session.Running ledger added) {id : UInt64} {raw stored : Bytes}
    (hcheck : session.check id raw = .ok stored)
    (hstored : (Codec.ofOptions session.field.options).encode raw = .ok stored →
      stored.length ≤ maxStoredLength)
    (hpages : session.txn.nextPage.toNat + UInt32.size ≤ UInt64.size) {level : Nat}
    (hlevel : level ≤ maxLevel) :
    ∃ next, session.registerAt id raw.length stored level = (next, .ok ()) ∧
      next.Running ledger (added ++ [⟨⟨id⟩, raw, stored⟩]) := by
  have hadmits := h.admits_of_check hcheck
  obtain ⟨next, hregister, hnext, _⟩ :=
    h.exists_registerAt hadmits (hstored hadmits.encoded) hpages hlevel
  exact ⟨next, hregister, hnext⟩

/-- **Registering a vector keeps sessions twins** that hand out the same pages, unless the vector is
too long.

**Proof sketch.** The check has the same answer in both. A vector that passes it is inserted at the
same level, and both insertions succeed. -/
theorem Twins.registerAtLevel (h : Twins session session')
    (hnext : session'.txn.nextPage = session.txn.nextPage) {id : UInt64} {raw : Bytes} {level : Nat}
    (hlevel : level ≤ maxLevel)
    (hstored : ∀ stored, (Codec.ofOptions session.field.options).encode raw = .ok stored →
      stored.length ≤ maxStoredLength)
    (hpages : session.txn.nextPage.toNat + UInt32.size ≤ UInt64.size) :
    Twins (session.registerAtLevel id raw (some level)).1
        (session'.registerAtLevel id raw (some level)).1 ∧
      (session'.registerAtLevel id raw (some level)).1.txn.nextPage =
        (session.registerAtLevel id raw (some level)).1.txn.nextPage := by
  simp only [Registration.registerAtLevel, h.check_eq]
  cases hcheck : session.check id raw with
  | error e => exact ⟨h, hnext⟩
  | ok stored =>
    obtain ⟨ledger, added, hleft⟩ := h.left
    obtain ⟨ledger', added', hright⟩ := h.right
    have hpages' : session'.txn.nextPage.toNat + UInt32.size ≤ UInt64.size := by
      rwa [hnext]
    obtain ⟨next, hregister, hrunning⟩ :=
      hleft.exists_registerAt_of_check hcheck (hstored stored) hpages hlevel
    obtain ⟨next', hregister', hrunning'⟩ := hright.exists_registerAt_of_check
      ((h.check_eq id raw).trans hcheck) (h.field ▸ hstored stored) hpages' hlevel
    have hgrows := (session.continues_registerAt id raw.length stored level hpages).grows
    have hgrows' := (session'.continues_registerAt id raw.length stored level hpages').grows
    rw [hregister] at hgrows
    rw [hregister'] at hgrows'
    obtain ⟨hinsert, hfield⟩ := exists_of_registerAt hregister
    obtain ⟨hinsert', hfield'⟩ := exists_of_registerAt hregister'
    obtain ⟨hgraph, hpage⟩ := alike_of_insert h.graph h.field hnext hinsert hinsert'
    dsimp only
    rw [hregister, hregister']
    refine ⟨?_, hpage⟩
    exact {
      left := ⟨_, _, hrunning⟩
      right := ⟨_, _, hrunning'⟩
      field := hfield'.trans (h.field.trans hfield.symm)
      graph := by
        rw [funext hgrows.extends_txn.sameEntries.get?,
          funext hgrows'.extends_txn.sameEntries.get?]
        exact hgraph }

/-! ## Transactions that mirror a session -/

/-- **A transaction mirrors a session**: it shows the graph of the session, and its records are
those that the session would leave if it were written. -/
structure Mirrors (session : Registration) (txn : WriteTransaction) : Prop where
  sound : ∃ ledger, txn.view.Sound ledger
  field : Catalog.find txn.view session.field.name = .ok session.field
  graph : ∃ base contents, session.graph.Shows session.field base contents ∧
    txn.view.Holds session.field.name contents
  node : ∀ id, txn.view.get? (RecordKey.node session.field.name id).bytes =
    session.graph.writtenNode session.txn.view.get? id
  container : ∀ page, txn.view.get? (RecordKey.container session.field.name page).bytes =
    session.graph.writtenContainer session.txn.view.get? page

/-- **Two transactions that mirror one session agree** on its field.

**Proof sketch.** Both transactions hold the contents of the graph of the session. -/
theorem Mirrors.agrees (h : Mirrors session txn) (h' : Mirrors session txn') :
    txn.view.Agrees session.field.name txn'.view := by
  obtain ⟨_, contents, hshows, hholds⟩ := h.graph
  obtain ⟨_, contents', hshows', hholds'⟩ := h'.graph
  obtain rfl := (Alike.refl session.txn.view.get? session.graph).contents_eq hshows hshows'
  exact {
    header := hholds'.header.trans hholds.header.symm
    node := fun id => (h'.node id).trans (h.node id).symm
    container := fun page => (h'.container page).trans (h.container page).symm
    run := by
      intro page hpage
      rw [hholds.isSome_get?_container] at hpage
      obtain ⟨container, hfound⟩ := Option.isSome_iff_exists.mp hpage
      rw [hholds.run_eq hfound, hholds'.run_eq hfound] }

/-- A transaction that follows on the commit of another mirrors the same session. -/
lemma Mirrors.start_commit (h : Mirrors session txn) : Mirrors session (.start txn.commit) := by
  have hget : ∀ key, (WriteTransaction.start txn.commit).view.get? key = txn.view.get? key :=
    fun key => (WriteTransaction.get?_start _ key).trans (txn.get?_commit key)
  have hrun : ∀ page, (WriteTransaction.start txn.commit).view.run page = txn.view.run page :=
    fun page => (WriteTransaction.run_start _ page).trans (txn.run_commit page)
  obtain ⟨ledger, hsound⟩ := h.sound
  obtain ⟨base, contents, hshows, hholds⟩ := h.graph
  exact {
    sound := ⟨ledger, hsound.congr hget (UInt64.le_refl _) fun page _ => hrun page⟩
    field := by rw [Catalog.find, hget]; exact h.field
    graph := ⟨base, contents, hshows,
      hholds.congr (fun key _ _ => hget key.bytes) fun page _ _ => hrun page⟩
    node := fun id => (hget _).trans (h.node id)
    container := fun page => (hget _).trans (h.container page) }

/-- Runs that are handed out do not matter. -/
lemma Mirrors.extends_txn (h : Mirrors session txn) (hextends : txn.Extends txn') :
    Mirrors session txn' := by
  have hget := hextends.sameEntries.get?
  obtain ⟨ledger, hsound⟩ := h.sound
  obtain ⟨base, contents, hshows, hholds⟩ := h.graph
  exact {
    sound := ⟨ledger, hsound.extends_txn hextends⟩
    field := by rw [Catalog.find, hget]; exact h.field
    graph := ⟨base, contents, hshows, hsound.holds_extends_txn h.field hholds hextends⟩
    node := fun id => (hget _).trans (h.node id)
    container := fun page => (hget _).trans (h.container page) }

/-! ## Opening and committing -/

/-- What is known of a session that has just been opened on a sound transaction. -/
lemma exists_opened (config : Config) {ledger : Ledger} {name : String}
    (hsound : txn.view.Sound ledger) (hfind : Catalog.find txn.view name = .ok field)
    {contents : GraphContents} (hholds : txn.view.Holds name contents) :
    ∃ session, start config txn name = .ok session ∧ session.txn = txn ∧ session.field = field ∧
      session.Running ledger [] ∧ session.graph.Shows field contents contents ∧
      (∀ id, session.graph.writtenNode txn.view.get? id =
        txn.view.get? (RecordKey.node name id).bytes) ∧
      ∀ page, session.graph.writtenContainer txn.view.get? page =
        txn.view.get? (RecordKey.container name page).bytes := by
  obtain ⟨session, hstart, rfl, rfl, hrunning⟩ := Registration.exists_start config hsound hfind
  obtain ⟨_, _, _, _, hload⟩ := exists_of_start hstart
  obtain ⟨rfl, _⟩ := hsound.valid hfind
  obtain ⟨graph, hgraph, hshows⟩ := FieldGraph.exists_load hholds
  obtain rfl := Except.ok.inj (hload.symm.trans hgraph)
  obtain ⟨header, _, hload⟩ := Except.bind_eq_ok_iff.mp hload
  refine ⟨session, hstart, rfl, rfl, hrunning, hshows, fun id => ?_, fun page => ?_⟩
  · rw [← Except.ok.inj hload]
    exact if_neg (by simp)
  · rw [← Except.ok.inj hload]
    exact if_neg (by simp)

/-- **A session that has just been opened** is mirrored by its transaction.

**Proof sketch.** The graph that is opened shows what the transaction holds. -/
theorem exists_mirrored (config : Config) {ledger : Ledger} {name : String}
    (hsound : txn.view.Sound ledger) (hfind : Catalog.find txn.view name = .ok field) :
    ∃ session, start config txn name = .ok session ∧ session.txn = txn ∧ session.field = field ∧
      session.Running ledger [] ∧ Mirrors session txn := by
  obtain ⟨rfl, _⟩ := hsound.valid hfind
  obtain ⟨contents, hholds, _, _⟩ := hsound.graph _ _ hfind
  obtain ⟨session, hstart, rfl, rfl, hrunning, hshows, hnode, hcontainer⟩ :=
    exists_opened config hsound hfind hholds
  refine ⟨session, hstart, rfl, rfl, hrunning, ?_⟩
  exact {
    sound := ⟨ledger, hsound⟩
    field := hfind
    graph := ⟨contents, contents, hshows, hholds⟩
    node := fun id => (hnode id).symm
    container := fun page => (hcontainer page).symm }

/-- Graphs that show the same contents, and leave the same records, are alike. -/
lemma alike_of_shows {base base' contents : GraphContents}
    (h : graph.Shows field base contents) (h' : graph'.Shows field base' contents)
    (hnode : ∀ id, graph'.writtenNode before' id = graph.writtenNode before id)
    (hcontainer : ∀ page, graph'.writtenContainer before' page =
      graph.writtenContainer before page) : Alike before before' graph graph' where
  field := h'.name.trans h.name.symm
  codec := h'.codec.trans h.codec.symm
  header := h'.header.trans h.header.symm
  nodes id := (h'.node id).trans (h.node id).symm
  containers page := (h'.container page).trans (h.container page).symm
  writtenNode := hnode
  writtenContainer := hcontainer

/-- **A session that is opened on a transaction that mirrors another session** is its twin.

**Proof sketch.** The graph that is opened shows what the transaction holds, and that is what the
session shows. -/
theorem Mirrors.exists_start (h : Mirrors session txn)
    (hrunning : ∃ ledger added, session.Running ledger added) (config : Config) :
    ∃ session', start config txn session.field.name = .ok session' ∧ session'.txn = txn ∧
      Twins session session' := by
  obtain ⟨ledger, hsound⟩ := h.sound
  obtain ⟨base, contents, hshows, hholds⟩ := h.graph
  obtain ⟨session', hstart, rfl, hfield, hrunning', hshows', hnode, hcontainer⟩ :=
    exists_opened config hsound h.field hholds
  refine ⟨session', hstart, rfl, ?_⟩
  exact {
    left := hrunning
    right := ⟨ledger, [], hrunning'⟩
    field := hfield
    graph := alike_of_shows hshows hshows' (fun id => (hnode id).trans (h.node id))
      fun page => (hcontainer page).trans (h.container page) }

/-- **A session that is written leaves a transaction that mirrors its twin.**

**Proof sketch.** The graph that is written is alike to that of the other session, so that what is
written is what that one shows. -/
theorem Twins.exists_commit (h : Twins session session') :
    ∃ count txn, session'.commit = .ok (count, txn) ∧ Mirrors session txn ∧
      txn.nextPage = session'.txn.nextPage := by
  obtain ⟨ledger, added, hleft⟩ := h.left
  obtain ⟨ledger', added', hright⟩ := h.right
  obtain ⟨base, contents, _, hshows, _⟩ := hleft.graph
  obtain ⟨base', contents', _, hshows', _, hbacked, _⟩ := hright.graph
  rw [h.field] at hshows'
  obtain rfl := h.graph.contents_eq hshows hshows'
  obtain ⟨_, _, txn, hshown, hcommit, hflushed, hsound⟩ := hright.exists_flushed
  rw [h.field] at hshown hflushed
  obtain rfl := h.graph.contents_eq hshows hshown
  obtain ⟨hnode, hcontainer⟩ := hshows'.get?_of_flush
    (h.field ▸ hright.view.slash_notMem hright.field)
    (fun page container hfound => (hbacked page container hfound).2) (exists_of_commit hcommit).2
  refine ⟨_, txn, hcommit, ?_, hflushed.nextPage⟩
  exact {
    sound := ⟨_, hsound⟩
    field := by
      rw [Snapshot.Sound.find_of_flushed hflushed, ← h.field]
      exact hright.field
    graph := ⟨base, _, hshows, hflushed.holds⟩
    node := fun id => (hnode id).trans (h.graph.writtenNode id)
    container := fun page => (hcontainer page).trans (h.graph.writtenContainer page) }

end Registration

end Proximity

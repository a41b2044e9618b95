import Proximity.Proofs.Container
import Proximity.Proofs.Graph.Storage
import Proximity.Proofs.Registration.Calls
import Proximity.Proofs.Store.Arising

set_option relaxedAutoImplicit false
set_option autoImplicit false

/-!
# Sessions are all or nothing

Whatever the records of a field are, a session changes them in one go when it commits, or not at
all. Until then it only hands out page runs. Once an insertion has failed on its way, the session
does not commit; as long as none has failed it can commit.

## Main definitions

* `Proximity.Registration.Ending`, `Proximity.Registration.close` — how a session ends.
* `Proximity.FieldGraph.Writable` — a graph that can be written into a transaction.
* `Proximity.Registration.Writable` — the invariant of a session that can commit.

## Main results

* `Proximity.FieldGraph.Writable.exists_flush` — a graph with the invariant is written.
* `Proximity.Registration.Writable.performAll` — any calls keep the invariant.
* `Proximity.Registration.all_or_nothing` — a session changes the records in one go or not at all.
* `Proximity.Registration.not_forall_aborted` — what cannot be read is reported also after a
  failure.
-/

namespace Proximity

/-! ## Writing damaged graphs -/

/-- Putting a vector into a container leaves its run as long as it was.

**Proof sketch.** The bytes are written over bytes that were there. -/
lemma Container.size_of_push {container filled : Container} {layout : ContainerLayout}
    {page : PageId} {id : VectorId} {bytes : Bytes} {location : SlotRef}
    (h : container.push layout page id bytes = .ok (location, filled)) :
    filled.run.size = container.run.size := by
  unfold push at h
  split at h
  · cases h
  split at h
  · cases h
  dsimp only at h
  split at h
  · next run hwrite =>
    obtain ⟨_, rfl⟩ := Prod.mk.inj (Except.ok.inj h)
    have hfits : layout.slotOffset (UInt8.ofNat container.used) + bytes.length ≤
        container.run.size := by
      by_contra hfits
      rw [Run.overwrite?, if_neg hfits] at hwrite
      cases hwrite
    obtain ⟨written, hwritten, hsize, _⟩ := Run.exists_overwrite? hfits
    obtain rfl := Option.some.inj (hwrite.symm.trans hwritten)
    exact hsize
  · cases h

namespace FieldGraph

/-- **A graph can be written** into a transaction: what has changed can be read, and the runs of its
containers are as long as they are in the transaction. -/
structure Writable (graph : FieldGraph) (txn : WriteTransaction) : Prop where
  node : ∀ id ∈ graph.changedNodes, ∃ node, graph.node id = .ok node
  container : ∀ page ∈ graph.changedContainers, ∃ container, graph.container page = .ok container
  run : ∀ page container, graph.container page = .ok container →
    ∃ run, txn.view.run page = .ok run ∧ container.run.size = run.size

variable {graph next : FieldGraph} {txn txn' : WriteTransaction}

/-- A graph that has just been opened can be written.

**Proof sketch.** Nothing has changed yet, and a container is read together with its run. -/
lemma writable_of_load {name : String} {codec : Codec}
    (h : load txn.view name codec = .ok graph) : graph.Writable txn := by
  obtain ⟨header, _, h⟩ := Except.bind_eq_ok_iff.mp h
  rw [← Except.ok.inj h]
  refine ⟨fun id hid => absurd hid (by simp), fun page hpage => absurd hpage (by simp),
    fun page container hcontainer => ?_⟩
  have hlook := @getElem?_loadContainers txn.view name page
  simp only [FieldGraph.container, hlook] at hcontainer
  cases hstored : txn.view.get? (RecordKey.container name page).bytes with
  | none => simp [hstored] at hcontainer
  | some stored =>
    simp only [hstored, Option.map_some] at hcontainer
    obtain ⟨record, _, hread⟩ := Except.bind_eq_ok_iff.mp hcontainer
    cases hrun : txn.view.run page with
    | error cause => simp [hrun] at hread
    | ok run =>
      simp only [hrun, Except.pure_eq_ok, Except.ok.injEq] at hread
      exact ⟨run, rfl, by rw [← hread]⟩

namespace Writable

/-- Runs that are handed out do not matter. -/
lemma extends_txn (h : graph.Writable txn) (harises : txn.Arises) (hextends : txn.Extends txn') :
    graph.Writable txn' where
  node := h.node
  container := h.container
  run page container hcontainer := by
    obtain ⟨run, hrun, hsize⟩ := h.run page container hcontainer
    exact ⟨run, (hextends.run page (harises.number_lt_nextPage hrun)).trans hrun, hsize⟩

/-- A container may take the place of another of the same length.

**Proof sketch.** The container itself has a run of the right length, and all others are as they
were. -/
lemma setContainer (h : graph.Writable txn) {page : PageId} {container : Container}
    (hrun : ∃ run, txn.view.run page = .ok run ∧ container.run.size = run.size) :
    (graph.setContainer page container).Writable txn where
  node := h.node
  container other hother := by
    simp only [FieldGraph.setContainer, Std.TreeSet.mem_insert,
      Std.LawfulEqCmp.compare_eq_iff_eq] at hother
    rw [setContainer_container]
    split_ifs with heq
    · exact ⟨container, rfl⟩
    · exact h.container other (hother.resolve_left fun hpage => heq hpage.symm)
  run other found hfound := by
    rw [setContainer_container] at hfound
    split_ifs at hfound with heq
    · subst heq
      rw [← Except.ok.inj hfound]
      exact hrun
    · exact h.run other found hfound

/-- A node may be added. -/
lemma addNode (h : graph.Writable txn) (id : VectorId) (node : NodeRecord) :
    (graph.addNode id node).Writable txn where
  node other hother := by
    simp only [FieldGraph.addNode, Std.TreeSet.mem_insert,
      Std.LawfulEqCmp.compare_eq_iff_eq] at hother
    rw [node_addNode]
    split_ifs with heq
    · exact ⟨node, rfl⟩
    · exact h.node other (hother.resolve_left fun hid => heq hid.symm)
  container := h.container
  run := h.run

/-- The header does not matter. -/
lemma withHeader (h : graph.Writable txn) (header : GraphHeader) :
    ({ graph with header } : FieldGraph).Writable txn :=
  ⟨h.node, h.container, h.run⟩

/-- Links may change.

**Proof sketch.** A node that has changed is there, and the containers are the same. -/
lemma rewires (h : graph.Writable txn) (hrewires : graph.Rewires next) : next.Writable txn where
  node id hid := by
    rcases hrewires.changed id hid with hold | hnode
    · obtain ⟨node, hnode⟩ := h.node id hold
      obtain ⟨node', hnode', _⟩ := hrewires.kept id node hnode
      exact ⟨node', hnode'⟩
    · exact hnode
  container page hpage := by
    rw [hrewires.changedContainers] at hpage
    obtain ⟨container, hcontainer⟩ := h.container page hpage
    refine ⟨container, ?_⟩
    rwa [FieldGraph.container, hrewires.containers]
  run page container hcontainer := by
    rw [FieldGraph.container, hrewires.containers] at hcontainer
    exact h.run page container hcontainer

/-- **A graph that can be written is written**, whatever it holds besides.

**Proof sketch.** Each of the three kinds of writes succeeds: the containers have runs of the right
length, and the nodes that have changed are there. -/
theorem exists_flush (h : graph.Writable txn) : ∃ txn', graph.flush txn = .ok txn' := by
  obtain ⟨written, hwritten, _⟩ := Except.foldlM_eq_ok (f := graph.flushContainer)
    (fun txn' : WriteTransaction => ∀ page container, graph.container page = .ok container →
      ∃ run, txn'.view.run page = .ok run ∧ container.run.size = run.size)
    (fun page hpage txn' hruns => by
      obtain ⟨container, hcontainer⟩ := h.container page (Std.TreeSet.mem_toList.mp hpage)
      obtain ⟨run, hrun, hsize⟩ := hruns page container hcontainer
      obtain ⟨between, hwrite, _, _, hbetween⟩ := txn'.exists_writeRun hrun hsize
      refine ⟨_, by rw [flushContainer, hcontainer, Except.ok_bind, hwrite]; rfl,
        fun other found hfound => ?_⟩
      rw [WriteTransaction.run_view_put, hbetween]
      split_ifs with heq
      · subst heq
        obtain rfl := Except.ok.inj (hcontainer.symm.trans hfound)
        exact ⟨_, rfl, rfl⟩
      · exact hruns other found hfound) h.run
  obtain ⟨last, hlast, _⟩ := Except.foldlM_eq_ok (f := graph.flushNode) (s := written)
    (fun _ : WriteTransaction => True) (fun id hid txn' _ => by
      obtain ⟨node, hnode⟩ := h.node id (Std.TreeSet.mem_toList.mp hid)
      exact ⟨_, by rw [flushNode, hnode, Except.ok_bind, Except.pure_eq_ok], trivial⟩) trivial
  exact ⟨_, by rw [flush, hwritten, Except.ok_bind, hlast, Except.ok_bind, Except.pure_eq_ok]⟩

end Writable

/-- **What replaced runs and new records keep is kept by writing a graph**, which puts no definition
of a field.

**Proof sketch.** The three kinds of writes are made one after the other, and each of them preserves
it. -/
theorem flush_preserves (P : WriteTransaction → Prop)
    (hwrite : ∀ {txn txn' page contents}, P txn →
      WriteTransaction.writeRun txn page contents = .ok txn' → P txn')
    (hput : ∀ {txn} (record : RecordKey) value, (∀ name, record ≠ .field name) → P txn →
      P (txn.put record.bytes value)) (htxn : P txn) (h : graph.flush txn = .ok txn') : P txn' := by
  obtain ⟨between, hcontainers, h⟩ := Except.bind_eq_ok_iff.mp h
  obtain ⟨last, hnodes, h⟩ := Except.bind_eq_ok_iff.mp h
  have hbetween : P between :=
    Except.foldlM_preserves P (fun page _ txn next hnow hstep => by
      obtain ⟨container, _, hstep⟩ := Except.bind_eq_ok_iff.mp hstep
      cases hrun : txn.writeRun page container.run with
      | error cause => simp [hrun] at hstep
      | ok written =>
        rw [hrun] at hstep
        rw [← Except.ok.inj hstep]
        exact hput (.container _ _) _ nofun (hwrite hnow hrun)) htxn hcontainers
  have hlast : P last :=
    Except.foldlM_preserves P (fun id _ txn next hnow hstep => by
      obtain ⟨node, _, hstep⟩ := Except.bind_eq_ok_iff.mp hstep
      rw [← Except.ok.inj hstep]
      exact hput (.node _ _) _ nofun hnow) hbetween hnodes
  rw [← Except.ok.inj h]
  exact hput (.graph _) _ nofun hlast

/-- Writing a graph leaves a transaction that can arise. -/
lemma arises_of_flush (harises : txn.Arises) (h : graph.flush txn = .ok txn') : txn'.Arises :=
  flush_preserves WriteTransaction.Arises (fun hnow hrun => hnow.writeRun hrun)
    (fun record value _ hnow => hnow.put record.bytes value) harises h

/-- Writing a graph hands out no page. -/
lemma nextPage_of_flush (h : graph.flush txn = .ok txn') : txn'.nextPage = txn.nextPage :=
  flush_preserves (fun written => written.nextPage = txn.nextPage) (fun hnow hrun => by
    obtain ⟨_, _, _, hnext, _⟩ := WriteTransaction.exists_of_writeRun hrun
    exact hnext.trans hnow) (fun _ _ _ hnow => hnow) rfl h

end FieldGraph

namespace Registration

variable {session : Registration} {txn txn' : WriteTransaction} {graph graph' : FieldGraph}
  {layout : ContainerLayout} {page : PageId} {container : Container} {id : VectorId}
  {raw level : Nat} {stored : Bytes} {call : Call} {calls : List Call}

/-! ## Sessions that can commit -/

/-- How a session ends. -/
inductive Ending
  /-- It commits into its transaction. -/
  | commit
  /-- It is rolled back. -/
  | rollback
  /-- It is dropped. -/
  | drop
deriving DecidableEq

/-- The transaction after a session has ended. A session that cannot commit leaves it as a session
does that is rolled back or dropped. -/
def close (session : Registration) : Ending → WriteTransaction
  | .commit =>
    match session.commit with
    | .ok (_, txn) => txn
    | .error _ => session.rollback
  | .rollback => session.rollback
  | .drop => session.rollback

/-- **A session can commit** as long as no insertion has failed: its graph can be written into its
transaction. -/
structure Writable (session : Registration) : Prop where
  arises : session.txn.Arises
  graph : session.graph.Writable session.txn

/-- Looking for a free slot leaves a transaction that can arise. -/
lemma arises_of_allocate (h : txn.Arises) (hlt : layout.pages < UInt32.size)
    (hle : txn.nextPage ≤ (allocate txn graph layout).1.nextPage) :
    (allocate txn graph layout).1.Arises := by
  unfold allocate at hle ⊢
  cases hroomy : roomyContainer graph layout with
  | error e => exact h
  | ok found =>
    cases found with
    | some found => exact h
    | none =>
      cases hallocate : txn.allocate layout.pages with
      | error cause => exact h
      | ok handed =>
        simp only [hroomy, hallocate] at hle
        exact h.allocate hallocate (WriteTransaction.lt_of_allocate hallocate hlt hle)

/-- An insertion leaves a transaction that can arise, whether it succeeds or not.

**Proof sketch.** The insertion hands out a run at most, and no longer one than a page count
says. -/
lemma arises_of_insert {result : Except IndexError FieldGraph} (h : session.txn.Arises)
    (hinsert : session.insert id raw stored level = (txn, result))
    (hle : session.txn.nextPage ≤ txn.nextPage) : txn.Arises := by
  unfold insert at hinsert
  dsimp only at hinsert
  split at hinsert
  · rwa [← (Prod.mk.inj hinsert).1]
  next layout hlayout =>
  have hallocated := @arises_of_allocate _
    { session.graph with header := fixLengths session.graph.header raw stored.length } _ h
    (FieldGraph.pages_lt_of_layout hlayout)
  split at hinsert
  · next hallocate =>
    rw [hallocate, (Prod.mk.inj hinsert).1] at hallocated
    exact hallocated hle
  · next hallocate =>
    rw [hallocate, (Prod.mk.inj hinsert).1] at hallocated
    exact hallocated hle

/-- A container with a free slot is as long as its run. -/
lemma exists_run_of_allocate (h : graph.Writable txn)
    (hallocate : allocate txn graph layout = (txn', .ok (page, container))) :
    ∃ run, txn'.view.run page = .ok run ∧ container.run.size = run.size := by
  rcases allocate_cases hallocate with ⟨rfl, hcontainer⟩ | ⟨hnew, rfl⟩
  · exact h.run page container hcontainer
  · have hzero : layout.pages ≠ 0 := by
      intro hzero
      rw [WriteTransaction.allocate, if_pos hzero] at hnew
      cases hnew
    obtain ⟨between, hbetween, _, _, hruns⟩ := txn.exists_allocate hzero
    obtain ⟨rfl, rfl⟩ := Prod.mk.inj (Except.ok.inj (hnew.symm.trans hbetween))
    exact ⟨Run.blank layout.pages, by rw [hruns, if_pos rfl], rfl⟩

/-- **An insertion that succeeds leaves a graph that can be written.**

**Proof sketch.** The run of the container was handed out or is an old one of the same length. The
insertion then changes the container, adds a node and changes links. -/
theorem writable_of_insert (h : session.Writable)
    (hinsert : session.insert id raw stored level = (txn', .ok graph'))
    (hle : session.txn.nextPage ≤ txn'.nextPage) : graph'.Writable txn' := by
  have hextends := extends_of_insert hinsert hle
  obtain ⟨layout, page, container, _, hallocate, hplace⟩ := exists_of_insert hinsert
  obtain ⟨_, location, filled, linked, hpush, hrewires, rfl⟩ := exists_of_place hplace
  obtain ⟨run, hrun, hsize⟩ := exists_run_of_allocate (h.graph.withHeader _) hallocate
  have hfilled := ((h.graph.extends_txn h.arises hextends).withHeader
    (fixLengths session.graph.header raw stored.length)).setContainer
      ⟨run, hrun, (Container.size_of_push hpush).trans hsize⟩
  exact (((hfilled.withHeader _).addNode id _).rewires hrewires).withHeader _

namespace Writable

/-- A call leaves a session that can commit, as long as page numbers stay in range. -/
lemma perform (h : session.Writable)
    (hle : session.txn.nextPage ≤ (session.perform call).1.txn.nextPage) :
    (session.perform call).1.Writable := by
  have houtcome := session.outcome_perform call
  generalize session.perform call = result at *
  cases houtcome with
  | unread => exact h
  | refused => exact h
  | inserted _ _ hinsert =>
    exact ⟨arises_of_insert h.arises hinsert hle, writable_of_insert h hinsert hle⟩
  | failed _ _ hinsert =>
    exact ⟨arises_of_insert h.arises hinsert hle,
      h.graph.extends_txn h.arises (extends_of_insert hinsert hle)⟩

/-- **Any calls leave a session that can commit**, as long as page numbers stay in range. -/
theorem performAll (h : session.Writable) (hrange : session.InRange calls) :
    (session.performAll calls).1.Writable := by
  induction calls generalizing session with
  | nil => exact h
  | cons call calls ih => exact ih (h.perform hrange.head) hrange.tail

/-- **It commits**, and answers how many vectors have been registered. -/
theorem exists_commit (h : session.Writable) (hfailure : session.failure = none) :
    ∃ txn', session.commit = .ok (session.registered, txn') := by
  obtain ⟨txn', hflush⟩ := h.graph.exists_flush
  exact ⟨txn', by rw [commit, hfailure, hflush, Except.ok_bind, Except.pure_eq_ok]⟩

/-- However the session ends, its transaction can arise. -/
lemma close (h : session.Writable) (ending : Ending) : (session.close ending).Arises := by
  cases ending with
  | commit =>
    rw [Registration.close]
    split
    · next count txn' hcommit =>
      exact FieldGraph.arises_of_flush h.arises (exists_of_commit hcommit).2
    · exact h.arises
  | rollback => exact h.arises
  | drop => exact h.arises

end Writable

/-- However a session ends, it hands out no page then. -/
lemma nextPage_close (session : Registration) (ending : Ending) :
    (session.close ending).nextPage = session.txn.nextPage := by
  cases ending with
  | commit =>
    rw [close]
    split
    · next count txn hcommit => exact FieldGraph.nextPage_of_flush (exists_of_commit hcommit).2
    · rfl
  | rollback => rfl
  | drop => rfl

/-! ## Damaged records -/

/-- An insertion fails if the open container cannot be read, at any level. -/
lemma insert_eq_error {e : IndexError}
    (hlayout : ContainerLayout.forVectorLength?
      (fixLengths session.graph.header raw stored.length).vectorLength = some layout)
    (hopen : (fixLengths session.graph.header raw stored.length).openContainer = some page)
    (hcontainer : session.graph.container page = .error e) :
    session.insert id raw stored level = (session.txn, .error e) := by
  have hroomy : roomyContainer { session.graph with
      header := fixLengths session.graph.header raw stored.length } layout = .error e := by
    unfold roomyContainer
    simp only [hopen]
    rw [show FieldGraph.container { session.graph with
      header := fixLengths session.graph.header raw stored.length } page = .error e from hcontainer]
    rfl
  simp only [insert, FieldGraph.layout, hlayout, allocate, hroomy]

/-- A call fails if its vector is accepted and cannot be inserted at any level.

**Proof sketch.** By how a call can end; only the failed insertion is left. -/
lemma perform_eq_error {bytes : Bytes} {e : IndexError} (hgiven : call.given = .ok bytes)
    (hcheck : session.check call.id bytes = .ok stored)
    (hinsert : ∀ level, session.insert ⟨call.id⟩ bytes.length stored level = (txn, .error e)) :
    (session.perform call).2 = .error (.registrationFailed call.id e) := by
  have houtcome := session.outcome_perform call
  generalize session.perform call = result at *
  cases houtcome with
  | unread hunread =>
    rw [hgiven] at hunread
    cases hunread
  | refused hraw hrefused =>
    obtain rfl := Except.ok.inj (hgiven.symm.trans hraw)
    rw [hcheck] at hrefused
    cases hrefused
  | inserted hraw hstored hinserted =>
    obtain rfl := Except.ok.inj (hgiven.symm.trans hraw)
    obtain rfl := Except.ok.inj (hcheck.symm.trans hstored)
    rw [hinsert] at hinserted
    cases (Prod.mk.inj hinserted).2
  | failed hraw hstored hinserted =>
    obtain rfl := Except.ok.inj (hgiven.symm.trans hraw)
    obtain rfl := Except.ok.inj (hcheck.symm.trans hstored)
    rw [hinsert] at hinserted
    rw [← Except.error.inj (Prod.mk.inj hinserted).2]

/-- A first transaction in which a field and the header of its graph have been put into the key
space by hand, without any node or container. -/
def describing (field : FieldRecord) (header : GraphHeader) : WriteTransaction :=
  ((WriteTransaction.start .empty).put (RecordKey.field field.name).bytes
    (MessagePack.encode field)).put (RecordKey.graph field.name).bytes (MessagePack.encode header)

/-- A session can be opened on a field that has been put into the key space by hand.

**Proof sketch.** The two records are found under their keys and are read back; there are no
others. -/
lemma exists_start_describing (config : Config) {field : FieldRecord} {header : GraphHeader}
    (hname : '/' ∉ field.name.toList) (hfield : field.Fits) (hheader : header.Fits) :
    ∃ session, start config (describing field header) field.name = .ok session ∧
      session.failure = none ∧ session.field = field ∧ session.graph.header = header ∧
      session.graph.codec = .ofOptions field.options ∧
      (∀ id, session.graph.contains id = false) ∧
      ∀ page, session.graph.container page = .error (.inconsistent (.missingContainer page)) := by
  set view := (describing field header).view with hview
  have hget : ∀ key, view.get? key = if (RecordKey.graph field.name).bytes = key then
      some (MessagePack.encode header) else if (RecordKey.field field.name).bytes = key then
      some (MessagePack.encode field) else none := by
    intro key
    rw [hview, describing, WriteTransaction.get?_view_put, WriteTransaction.get?_view_put,
      WriteTransaction.get?_start]
    simp [Snapshot.get?, Snapshot.empty]
  have hne := @RecordKey.bytes_ne_of_ne field.name hname
  have hfind : Catalog.find view field.name = .ok field := by
    rw [Catalog.find, hget, if_neg (hne rfl rfl (by simp)), if_pos rfl]
    exact FieldRecord.decode_encode hfield
  have hload : FieldGraph.load view field.name (.ofOptions field.options) = .ok {
      field := field.name
      codec := .ofOptions field.options
      header
      nodes := FieldGraph.loadNodes view field.name
      containers := FieldGraph.loadContainers view field.name
      changedNodes := ∅
      changedContainers := ∅ } := by
    have hfound : GraphHeader.find view field.name = .ok header := by
      rw [GraphHeader.find, hget, if_pos rfl]
      exact GraphHeader.decode_encode hheader
    rw [FieldGraph.load, hfound, Except.ok_bind, Except.pure_eq_ok]
  refine ⟨_, by rw [start, hfind, Except.ok_bind, hload, Except.ok_bind, Except.pure_eq_ok], rfl,
    rfl, rfl, rfl, fun id => ?_, fun page => ?_⟩
  · rw [FieldGraph.contains, Std.TreeMap.contains_eq_isSome_getElem?,
      FieldGraph.getElem?_loadNodes, hget, if_neg (hne rfl rfl (by simp)),
      if_neg (hne rfl rfl (by simp))]
    rfl
  · rw [FieldGraph.container, FieldGraph.getElem?_loadContainers, hget,
      if_neg (hne rfl rfl (by simp)), if_neg (hne rfl rfl (by simp))]
    rfl

/-- The header of a graph for vectors of four bytes, with a container that is open. -/
def adrift : GraphHeader :=
  { GraphHeader.blank with rawLength := 4, vectorLength := 4, openContainer := some ⟨0⟩ }

/-- **Records can be damaged so that every insertion fails**: the open container is missing.

**Proof sketch.** The header names an open container that there is not. A vector that passes the
check cannot be inserted then. -/
theorem exists_adrift :
    ∃ txn session, txn.Arises ∧ txn.nextPage = 0 ∧ start {} txn "f" = .ok session ∧
      (session.perform (.raw 6 [0, 0, 0, 0])).2 =
        .error (.registrationFailed 6 (.inconsistent (.missingContainer ⟨0⟩))) := by
  obtain ⟨session, hstart, hfailure, hfield, hheader, hcodec, hcontains, hcontainer⟩ :=
    @exists_start_describing {} ⟨"f", .ofShape 2 1, 0⟩ adrift (by decide)
      ⟨by decide, ⟨by decide, by decide, by decide⟩, by decide⟩
      ⟨by decide, by decide, by decide, by decide⟩
  refine ⟨_, session, .put (.put .first _ _) _ _, rfl, hstart, ?_⟩
  have hlengths : session.checkLengths 4 4 = .ok () := by
    rw [checkLengths_eq_ok_iff, hfield, hheader]
    decide
  have hcheck : session.check 6 [0, 0, 0, 0] = .ok [0, 0, 0, 0] := by
    have hencode : session.graph.codec.encode [0, 0, 0, 0] = .ok [0, 0, 0, 0] := by
      rw [hcodec]
      rfl
    have haccepted : VectorId.accepted 6 = true := by decide
    simp only [check, hfailure, haccepted, hencode, hcontains, if_true, Except.ok_bind]
    simp [hlengths]
  obtain ⟨layout, hlayout⟩ : ∃ layout, ContainerLayout.forVectorLength?
      (fixLengths session.graph.header 4 4).vectorLength = some layout := by
    rw [hheader]
    exact ⟨_, rfl⟩
  exact perform_eq_error rfl hcheck fun level =>
    insert_eq_error hlayout (by rw [hheader]; rfl) (hcontainer ⟨0⟩)

/-! ## All or nothing -/

/-- **The sessions that can be opened** on a transaction. -/
inductive Opened (txn : WriteTransaction) : Registration → Prop
  /-- Levels are drawn from the seed of the configuration. -/
  | start {config : Config} {name : String} {session : Registration}
      (h : start config txn name = .ok session) : Opened txn session
  /-- Levels are drawn from another seed. -/
  | withSeed {session : Registration} (h : Opened txn session) (seed : UInt64) :
      Opened txn (session.withSeed seed)

namespace Opened

/-- Nothing has happened in a session that has just been opened. -/
lemma rest (h : Opened txn session) :
    session.txn = txn ∧ session.failure = none ∧ session.registered = 0 ∧
      session.graph.Writable txn := by
  induction h with
  | start h =>
    obtain ⟨rfl, hfailure, hregistered, _, hload⟩ := exists_of_start h
    exact ⟨rfl, hfailure, hregistered, FieldGraph.writable_of_load hload⟩
  | withSeed _ seed ih =>
    rw [Registration.withSeed]
    generalize Generator.ofSeed seed = generator
    exact ih

end Opened

/-- A session that has failed does not commit. -/
lemma commit_of_failure {failed : UInt64 × String} (h : session.failure = some failed) :
    session.commit = .error (.registrationAborted failed.1 failed.2) := by
  rw [commit, h]

/-- A session that has failed leaves its transaction, however it ends. -/
lemma close_of_failure {failed : UInt64 × String} (h : session.failure = some failed)
    (ending : Ending) : session.close ending = session.txn := by
  cases ending with
  | commit =>
    rw [close, commit_of_failure h]
    rfl
  | rollback => rfl
  | drop => rfl

/-- **Registration is all or nothing**, whatever the records are, as long as no page number
overflows. A session that is rolled back or dropped, or in which an insertion has failed, leaves
every key and every page run of its transaction as they were. Once an insertion has failed, each
later call is answered by that failure unless it cannot be read, and so is the commit. If no
insertion has failed then the session commits, and it answers how many calls have succeeded.

**Proof sketch.** A session works in its own copy of the graph and hands out runs in the
transaction, which changes no key and no earlier run. The first call that fails is noted, and all
later ones answer with it. If none fails the graph can be written at every step, so that the commit
succeeds. -/
theorem all_or_nothing (harises : txn.Arises) (hopened : Opened txn session) (calls : List Call)
    (hrange : session.InRange calls) :
    (∀ ending, (ending = .commit →
        ∃ before call after x e, session.Fails calls before call after x e) →
      (∀ key, ((session.performAll calls).1.close ending).view.get? key = txn.view.get? key) ∧
      ∀ page run, txn.view.run page = .ok run →
        ((session.performAll calls).1.close ending).view.run page = .ok run) ∧
    (∀ before call after x e, session.Fails calls before call after x e → x = call.id ∧
      (session.performAll calls).2 = (session.performAll before).2 ++
        .error (.registrationFailed x e) :: after.map (Call.refusal (x, e.message)) ∧
      (session.performAll calls).1.commit = .error (.registrationAborted x e.message)) ∧
    ((∀ before call after x e, ¬session.Fails calls before call after x e) →
      ∃ txn', (session.performAll calls).1.commit =
        .ok ((session.performAll calls).2.countP Except.isOk, txn')) := by
  obtain ⟨rfl, hfailure, hregistered, hwritable⟩ := hopened.rest
  refine ⟨fun ending hending => ?_, fun before call after x e hfails => ?_, fun hnone => ?_⟩
  · have hclose : (session.performAll calls).1.close ending = (session.performAll calls).1.txn := by
      cases ending with
      | commit =>
        obtain ⟨before, call, after, x, e, hfails⟩ := hending rfl
        exact close_of_failure hfails.performAll.2.1 .commit
      | rollback => rfl
      | drop => rfl
    have hextends := extends_performAll hrange
    rw [hclose]
    exact ⟨hextends.sameEntries.get?, fun page run hrun =>
      (hextends.run page (harises.number_lt_nextPage hrun)).trans hrun⟩
  · obtain ⟨hid, hfailed, hanswers⟩ := hfails.performAll
    exact ⟨hid, hanswers, commit_of_failure hfailed⟩
  · obtain ⟨txn', hcommit⟩ := Writable.exists_commit
      (Writable.performAll ⟨harises, hwritable⟩ hrange)
      (failure_eq_none_of_performAll hfailure hnone)
    rw [registered_performAll, hregistered, Nat.zero_add] at hcommit
    exact ⟨txn', hcommit⟩

/-- **What cannot be read is reported also after a failure**, and not the failure. -/
theorem not_forall_aborted : ¬∀ (txn : WriteTransaction) (config : Config) (name : String)
    (session : Registration) (call later : Call) (x : UInt64) (e : IndexError), txn.Arises →
      start config txn name = .ok session →
      (session.perform call).2 = .error (.registrationFailed x e) →
      ((session.perform call).1.perform later).2 = .error (.registrationAborted x e.message) := by
  intro hall
  obtain ⟨txn, session, harises, _, hstart, hanswer⟩ := exists_adrift
  have haborted := hall txn {} "f" session _ (.base64 7 "%") _ _ harises hstart hanswer
  obtain ⟨_, hfailure⟩ := failure_of_perform ⟨_, rfl⟩ hanswer
  have hunread : Call.given (.base64 7 "%") = .error (.corruptInput "invalid base64") := by decide
  rw [perform_of_failure hfailure, Call.refusal, hunread] at haborted
  cases haborted

/-- The first of three insertions fails, the second call cannot be read and the third is refused. -/
theorem exists_nothing : ∃ txn session e, txn.Arises ∧ Opened txn session ∧
    (session.performAll [.raw 6 [0, 0, 0, 0], .base64 7 "%", .raw 8 [0, 0, 0, 0]]).2 =
      [.error (.registrationFailed 6 e), .error (.corruptInput "invalid base64"),
        .error (.registrationAborted 6 e.message)] ∧
    (session.performAll [.raw 6 [0, 0, 0, 0], .base64 7 "%", .raw 8 [0, 0, 0, 0]]).1.commit =
      .error (.registrationAborted 6 e.message) := by
  obtain ⟨txn, session, harises, hpage, hstart, hanswer⟩ := exists_adrift
  obtain ⟨_, hfailed, _⟩ := all_or_nothing harises (.start hstart)
    [.raw 6 [0, 0, 0, 0], .base64 7 "%", .raw 8 [0, 0, 0, 0]]
    (inRange_of_le (by rw [(exists_of_start hstart).1, hpage]; decide))
  obtain ⟨_, hanswers, hcommit⟩ := hfailed [] (.raw 6 [0, 0, 0, 0])
    [.base64 7 "%", .raw 8 [0, 0, 0, 0]] _ _ ⟨rfl, ⟨_, rfl⟩, hanswer⟩
  have hunread : Call.given (.base64 7 "%") = .error (.corruptInput "invalid base64") := by decide
  refine ⟨txn, session, _, harises, .start hstart, hanswers.trans ?_, hcommit⟩
  simp only [List.map_cons, List.map_nil, Call.refusal, hunread]
  rfl

end Registration

end Proximity

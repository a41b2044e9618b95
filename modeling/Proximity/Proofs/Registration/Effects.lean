import Proximity.Proofs.Graph.Rewiring
import Proximity.Proofs.Store.View
import Proximity.Registration

set_option relaxedAutoImplicit false
set_option autoImplicit false

/-!
# What registering does to a session

Registering works on the opened graph, and all that it asks of the transaction is a page run now and
then. This holds whatever the records of the field are, also if they are damaged: no key changes, no
run that had been handed out changes, and every node that can be read stays on its layers and in its
place.

## Main definitions

* `Proximity.Registration.Continues` — what one session leaves of another that went on from it.

## Main results

* `Proximity.Registration.exists_of_start`, `Proximity.Registration.exists_of_commit` — what opening
  and committing a session has done.
* `Proximity.Registration.grows_of_allocate` — looking for a free slot hands out at most one run.
* `Proximity.Registration.exists_of_place`, `Proximity.Registration.exists_of_insert`,
  `Proximity.Registration.exists_of_registerAt` — what an insertion that succeeds has done.
* `Proximity.Registration.continues_registerAt`, `Proximity.Registration.continues_register` —
  registering goes on from a session.
-/

namespace Proximity

/-- A page run of a container is short enough for the numbers that name its pages. -/
lemma FieldGraph.pages_lt_of_layout {graph : FieldGraph} {layout : ContainerLayout}
    (h : graph.layout = .ok layout) : layout.pages < UInt32.size := by
  unfold FieldGraph.layout at h
  cases hlayout : ContainerLayout.forVectorLength? graph.header.vectorLength with
  | none => simp [hlayout] at h
  | some found =>
    simp only [hlayout, Except.ok.injEq] at h
    rw [← h]
    simp only [ContainerLayout.forVectorLength?] at hlayout
    split at hlayout
    · cases hlayout
    · rw [← Option.some.inj hlayout]
      exact Nat.mod_lt _ (by decide)

namespace Registration

variable {session next last : Registration} {txn txn' : WriteTransaction}
  {graph graph' : FieldGraph} {layout : ContainerLayout} {page : PageId} {container : Container}
  {id : VectorId} {raw level : Nat} {encoded : Bytes}

/-! ## Opening and committing -/

/-- **A session that has been opened** has done nothing yet. -/
theorem exists_of_start {config : Config} {name : String}
    (h : start config txn name = .ok session) :
    session.txn = txn ∧ session.failure = none ∧ session.registered = 0 ∧
      Catalog.find txn.view name = .ok session.field ∧
      FieldGraph.load txn.view session.field.name (.ofOptions session.field.options) =
        .ok session.graph := by
  obtain ⟨field, hfind, h⟩ := Except.bind_eq_ok_iff.mp h
  obtain ⟨graph, hload, h⟩ := Except.bind_eq_ok_iff.mp h
  dsimp only at h
  -- The seed is left out of sight, since comparing it would compute it.
  generalize Generator.ofSeed _ = generator at h
  rw [← Except.ok.inj h]
  exact ⟨rfl, rfl, rfl, hfind, hload⟩

/-- A session that has been committed has not failed, and its graph has been written. -/
theorem exists_of_commit {count : Nat} (h : session.commit = .ok (count, txn)) :
    session.failure = none ∧ session.graph.flush session.txn = .ok txn := by
  unfold commit at h
  split at h
  · cases h
  · next hfailure =>
    obtain ⟨last, hflush, h⟩ := Except.bind_eq_ok_iff.mp h
    obtain ⟨_, rfl⟩ := Prod.mk.inj (Except.ok.inj h)
    exact ⟨hfailure, hflush⟩

/-! ## A free slot -/

/-- A container with a free slot is one of the graph, or a new one.

**Proof sketch.** The open container is taken if it has a free slot, and otherwise a run is handed
out. -/
lemma allocate_cases (h : allocate txn graph layout = (txn', .ok (page, container))) :
    (txn' = txn ∧ graph.container page = .ok container) ∨
      (txn.allocate layout.pages = .ok (page, txn') ∧ container = .blank layout) := by
  unfold allocate at h
  cases hroomy : roomyContainer graph layout with
  | error e => simp [hroomy] at h
  | ok found =>
    cases found with
    | some found =>
      simp only [hroomy, Prod.mk.injEq, Except.ok.injEq] at h
      obtain ⟨rfl, rfl⟩ := h
      refine .inl ⟨rfl, ?_⟩
      unfold roomyContainer at hroomy
      cases hopen : graph.header.openContainer with
      | none => simp [hopen] at hroomy
      | some opened =>
        simp only [hopen] at hroomy
        obtain ⟨held, hheld, hroomy⟩ := Except.bind_eq_ok_iff.mp hroomy
        rw [Except.pure_eq_ok, Except.ok.injEq, Option.ite_none_right_eq_some] at hroomy
        obtain ⟨rfl, rfl⟩ := Prod.mk.inj (Option.some.inj hroomy.2)
        exact hheld
    | none =>
      cases hnew : txn.allocate layout.pages with
      | error cause => simp [hroomy, hnew] at h
      | ok handed =>
        simp only [hroomy, hnew, Prod.mk.injEq, Except.ok.injEq] at h
        obtain ⟨rfl, rfl, rfl⟩ := h
        exact .inr ⟨rfl, rfl⟩

/-- **Looking for a free slot hands out at most one run**, whether one is found or not.

**Proof sketch.** Only the last branch changes the transaction, by one run. -/
theorem grows_of_allocate (txn : WriteTransaction) (graph : FieldGraph)
    (hlt : layout.pages < UInt32.size) (hpages : txn.nextPage.toNat + UInt32.size ≤ UInt64.size) :
    txn.Grows 1 (allocate txn graph layout).1 := by
  have hsame : txn.Grows 1 txn := (WriteTransaction.Grows.refl txn).mono (Nat.zero_le 1)
  unfold allocate
  cases roomyContainer graph layout with
  | error e => exact hsame
  | ok found =>
    cases found with
    | some found => exact hsame
    | none =>
      cases hallocate : txn.allocate layout.pages with
      | error cause => exact hsame
      | ok handed => exact WriteTransaction.grows_of_allocate hallocate hlt hpages

/-- Looking for a free slot leaves all that had been handed out before, unless a page number
overflows. -/
lemma extends_of_allocate
    (hle : txn.nextPage ≤ (allocate txn graph layout).1.nextPage) :
    txn.Extends (allocate txn graph layout).1 := by
  unfold allocate at hle ⊢
  cases hroomy : roomyContainer graph layout with
  | error e => exact .refl txn
  | ok found =>
    cases found with
    | some found => exact .refl txn
    | none =>
      cases hallocate : txn.allocate layout.pages with
      | error cause => exact .refl txn
      | ok handed =>
        simp only [hroomy, hallocate] at hle
        exact WriteTransaction.extends_of_allocate hallocate hle

/-! ## Insertions -/

/-- **A vector that has been put away and linked** lies in the next free slot of the container, and
its node is new. -/
theorem exists_of_place {options : FieldOptions}
    (h : place graph options layout page container id encoded level = .ok graph') :
    graph.contains id = false ∧ ∃ location filled linked,
      container.push layout page id encoded = .ok (location, filled) ∧
      (({ graph.setContainer page filled with
          header := { graph.header with openContainer := some page } } : FieldGraph).addNode id
        (.blank level location)).Rewires linked ∧
      graph' = { linked with header := FieldGraph.countNode linked.header id level } := by
  obtain ⟨⟨location, filled⟩, hpush, h⟩ := Except.bind_eq_ok_iff.mp h
  obtain ⟨hnew, linked, hrewires, hgraph⟩ := FieldGraph.exists_of_insert h
  exact ⟨hnew, location, filled, linked, hpush, hrewires, hgraph⟩

/-- **An insertion that succeeds** has found a free slot for the vector and has put it there.

**Proof sketch.** The three steps of an insertion have all succeeded. -/
theorem exists_of_insert (h : session.insert id raw encoded level = (txn', .ok graph')) :
    ∃ layout page container,
      ({ session.graph with header := fixLengths session.graph.header raw encoded.length } :
        FieldGraph).layout = .ok layout ∧
      allocate session.txn
        { session.graph with header := fixLengths session.graph.header raw encoded.length } layout =
          (txn', .ok (page, container)) ∧
      place { session.graph with header := fixLengths session.graph.header raw encoded.length }
        session.field.options layout page container id encoded level = .ok graph' := by
  unfold insert at h
  dsimp only at h
  split at h
  · cases (Prod.mk.inj h).2
  next layout hlayout =>
  split at h
  · cases (Prod.mk.inj h).2
  next between page container hallocate =>
  obtain ⟨rfl, hplace⟩ := Prod.mk.inj h
  exact ⟨layout, page, container, hlayout, hallocate, hplace⟩

/-- **A registration that succeeds** is an insertion that succeeds. -/
theorem exists_of_registerAt {id : UInt64}
    (h : session.registerAt id raw encoded level = (next, .ok ())) :
    session.insert ⟨id⟩ raw encoded level = (next.txn, .ok next.graph) ∧
      next.field = session.field := by
  unfold registerAt at h
  split at h
  · next txn graph hinsert =>
    rw [← (Prod.mk.inj h).1]
    exact ⟨hinsert, rfl⟩
  · cases (Prod.mk.inj h).2

/-- **An insertion hands out at most one run**, whether it succeeds or not.

**Proof sketch.** The layout and the linking leave the transaction; looking for a free slot hands
out one run at most. -/
theorem grows_of_insert (session : Registration) (id : VectorId) (raw : Nat) (encoded : Bytes)
    (level : Nat) (hpages : session.txn.nextPage.toNat + UInt32.size ≤ UInt64.size) :
    session.txn.Grows 1 (session.insert id raw encoded level).1 := by
  unfold insert
  dsimp only
  split
  · exact (WriteTransaction.Grows.refl session.txn).mono (Nat.zero_le 1)
  next layout hlayout =>
  have hgrows := grows_of_allocate session.txn
    { session.graph with header := fixLengths session.graph.header raw encoded.length }
    (FieldGraph.pages_lt_of_layout hlayout) hpages
  split
  · next hallocate =>
    rw [hallocate] at hgrows
    exact hgrows
  · next hallocate =>
    rw [hallocate] at hgrows
    exact hgrows

/-- **An insertion leaves all that had been handed out before**, unless a page number overflows.

**Proof sketch.** Only looking for a free slot changes the transaction. -/
theorem extends_of_insert {result : Except IndexError FieldGraph}
    (h : session.insert id raw encoded level = (txn, result))
    (hle : session.txn.nextPage ≤ txn.nextPage) : session.txn.Extends txn := by
  unfold insert at h
  dsimp only at h
  split at h
  · rw [← (Prod.mk.inj h).1]
    exact .refl session.txn
  next layout _ =>
  have hextends := @extends_of_allocate session.txn
    { session.graph with header := fixLengths session.graph.header raw encoded.length } layout
  split at h
  · next hallocate =>
    rw [hallocate, (Prod.mk.inj h).1] at hextends
    exact hextends hle
  · next hallocate =>
    rw [hallocate, (Prod.mk.inj h).1] at hextends
    exact hextends hle

/-! ## Sessions that go on -/

/-- **One session has gone on from another** by no more than some number of insertions: the
transaction has at most handed out a run for each of them, every node that could be read can still
be read, on the same layers and in the same place, and a failure is not forgotten. -/
structure Continues (session : Registration) (count : Nat) (next : Registration) : Prop where
  field : next.field = session.field
  grows : session.txn.Grows count next.txn
  kept : ∀ id node, session.graph.node id = .ok node → ∃ node', next.graph.node id = .ok node' ∧
    node'.level = node.level ∧ node'.location = node.location
  failure_eq_none : next.failure = none → session.failure = none

namespace Continues

variable {count more : Nat}

/-- A session has gone on from itself. -/
lemma refl (session : Registration) : session.Continues 0 session where
  field := rfl
  grows := .refl session.txn
  kept _ node h := ⟨node, h, rfl, rfl⟩
  failure_eq_none h := h

/-- Sessions that have gone on one from the other; the insertions add up. -/
lemma trans (h : session.Continues count next) (h' : next.Continues more last) :
    session.Continues (count + more) last where
  field := h'.field.trans h.field
  grows := h.grows.trans h'.grows
  kept id node hnode := by
    obtain ⟨node', hnode', hlevel, hlocation⟩ := h.kept id node hnode
    obtain ⟨node'', hnode'', hlevel', hlocation'⟩ := h'.kept id node' hnode'
    exact ⟨node'', hnode'', hlevel'.trans hlevel, hlocation'.trans hlocation⟩
  failure_eq_none hfailure := h.failure_eq_none (h'.failure_eq_none hfailure)

/-- The bound on the insertions may be greater. -/
lemma mono (h : session.Continues count next) (hle : count ≤ more) :
    session.Continues more next :=
  { h with grows := h.grows.mono hle }

end Continues

/-- **Registering at a level goes on from the session**, whether it succeeds or not.

**Proof sketch.** An insertion that succeeds adds a node and changes links; one that fails changes
the transaction only. -/
theorem continues_registerAt (session : Registration) (id : UInt64) (raw : Nat) (encoded : Bytes)
    (level : Nat) (hpages : session.txn.nextPage.toNat + UInt32.size ≤ UInt64.size) :
    session.Continues 1 (session.registerAt id raw encoded level).1 := by
  have hgrows := session.grows_of_insert ⟨id⟩ raw encoded level hpages
  unfold registerAt
  split
  · next txn graph hinsert =>
    rw [hinsert] at hgrows
    refine ⟨rfl, hgrows, fun other node hnode => ?_, fun hfailure => hfailure⟩
    obtain ⟨_, page, container, _, _, hplace⟩ := exists_of_insert hinsert
    obtain ⟨hnew, location, filled, linked, _, hrewires, rfl⟩ := exists_of_place hplace
    refine hrewires.kept other node ?_
    rw [FieldGraph.node_addNode, if_neg]
    · exact hnode
    · rintro rfl
      have hcontains : session.graph.contains ⟨id⟩ = true := FieldGraph.contains_of_node hnode
      rw [show session.graph.contains ⟨id⟩ = false from hnew] at hcontains
      cases hcontains
  · next txn e hinsert =>
    rw [hinsert] at hgrows
    exact ⟨rfl, hgrows, fun _ node hnode => ⟨node, hnode, rfl, rfl⟩, fun hfailure => by
      cases hfailure⟩

/-- Another source of levels changes nothing else. -/
lemma continues_withGenerator (session : Registration) (generator : Generator) :
    session.Continues 0 { session with generator } where
  field := rfl
  grows := .refl session.txn
  kept _ node h := ⟨node, h, rfl, rfl⟩
  failure_eq_none h := h

/-- **Registering goes on from the session**, whether it succeeds or not.

**Proof sketch.** A vector that passes the check draws a level and is inserted. -/
theorem continues_register (session : Registration) (id : UInt64) (raw : Bytes)
    (hpages : session.txn.nextPage.toNat + UInt32.size ≤ UInt64.size) :
    session.Continues 1 (session.register id raw).1 := by
  unfold register
  cases session.check id raw with
  | error e => exact (Continues.refl session).mono (Nat.zero_le 1)
  | ok encoded =>
    rw [drawLevel]
    rcases session.generator.uniform with ⟨uniform, generator⟩
    have hdraw := session.continues_withGenerator generator
    exact hdraw.trans (continues_registerAt _ id raw.length encoded _ hpages)

end Registration

end Proximity

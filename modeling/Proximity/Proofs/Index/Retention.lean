import Proximity.Proofs.Index.Persistence

set_option relaxedAutoImplicit false
set_option autoImplicit false

/-!
# What stays in an index

What a field has accepted stays where it is. Operations add vectors and change the links between
nodes; the level of a node, its place and the bytes in its slot never change as long as the
transaction that has put it there is not abandoned. What has been committed stays for good.

## Main definitions

* `Proximity.Snapshot.Retains` — what a later snapshot keeps of an earlier one.
* `Proximity.Index.Follows` — what is seen later in place of what is seen now.
* `Proximity.Index.Retaining` — the invariant.

## Main results

* `Proximity.Index.advances` — one operation retains what is there.
* `Proximity.Index.Reachable.retains_of_follows` — so does any number of operations.
* `Proximity.Index.Reachable.exists_accounts_retained` — the records of a field stand for the
  accepted vectors, and these stay in their places.
-/

namespace Proximity

/-! ## Snapshots -/

namespace Snapshot

/-- **A later snapshot retains an earlier one**: every field is still there with all that it has
accepted, and its nodes are still on their layers and in their places. -/
structure Retains (view : Snapshot) (ledger : Ledger) (next : Snapshot) (later : Ledger) :
    Prop where
  field : ∀ name field, Catalog.find view name = .ok field → Catalog.find next name = .ok field
  accepted : ∀ name, ledger name <+: later name
  node : ∀ name field, Catalog.find view name = .ok field → ∀ id node, view.HasNode name id node →
    ∃ node', next.HasNode name id node' ∧ node'.level = node.level ∧ node'.location = node.location

variable {view next last : Snapshot} {ledger later final : Ledger}

namespace Retains

/-- What is kept, and kept again, is kept. -/
lemma trans (h : view.Retains ledger next later) (h' : next.Retains later last final) :
    view.Retains ledger last final where
  field name field hfind := h'.field name field (h.field name field hfind)
  accepted name := (h.accepted name).trans (h'.accepted name)
  node name field hfind id node hnode := by
    obtain ⟨node', hnode', hlevel, hlocation⟩ := h.node name field hfind id node hnode
    obtain ⟨node'', hnode'', hlevel', hlocation'⟩ :=
      h'.node name field (h.field name field hfind) id node' hnode'
    exact ⟨node'', hnode'', hlevel'.trans hlevel, hlocation'.trans hlocation⟩

/-- A snapshot with the same keys retains everything. -/
lemma of_get?_eq (ledger : Ledger) (hget : ∀ key, next.get? key = view.get? key) :
    view.Retains ledger next ledger where
  field name field hfind := by rwa [Catalog.find, hget]
  accepted name := List.prefix_rfl
  node name field _ id node hnode := by
    refine ⟨node, ?_, rfl, rfl⟩
    rwa [HasNode, hget]

/-- A snapshot keeps what it has. -/
lemma refl (view : Snapshot) (ledger : Ledger) : view.Retains ledger view ledger :=
  of_get?_eq ledger fun _ => rfl

/-- Creating a field retains those that are there.

**Proof sketch.** The one key that is written belongs to a name that was free. -/
lemma of_create {txn txn' : WriteTransaction} {name : String} {options : FieldOptions}
    {record : FieldRecord} (ledger : Ledger)
    (hcreate : Catalog.create txn name options = .ok (record, txn')) :
    txn.view.Retains ledger txn'.view ledger := by
  obtain ⟨_, _, hnone, _, rfl⟩ := Sound.create_eq_ok_iff.mp hcreate
  exact {
    field := by
      intro other field hfind
      rw [Catalog.find, WriteTransaction.get?_view_put, if_neg]
      · exact hfind
      · intro heq
        have hsome := isSome_get?_of_find hfind
        rw [← heq, hnone] at hsome
        cases hsome
    accepted := fun _ => List.prefix_rfl
    node := by
      intro other field _ id node hnode
      refine ⟨node, ?_, rfl, rfl⟩
      rw [HasNode, WriteTransaction.get?_view_put, if_neg]
      · exact hnode
      · exact Sound.field_bytes_ne name fun _ => by simp }

end Retains

end Snapshot

/-! ## Sessions -/

namespace Registration

/-- **The graph of a session retains the nodes of its field**, with the layers that they are on and
their places. -/
def RetainsNodes (session : Registration) : Prop :=
  ∀ id node, session.txn.view.HasNode session.field.name id node →
    ∃ node', session.graph.node id = .ok node' ∧ node'.level = node.level ∧
      node'.location = node.location

variable {session next : Registration} {ledger : Ledger} {added : List Accepted} {count : Nat}

/-- A session that has just been opened retains the nodes of its field. -/
lemma retainsNodes_of_start {config : Config} {txn : WriteTransaction} {name : String}
    (hsound : txn.view.Sound ledger) (h : start config txn name = .ok session) :
    session.RetainsNodes := by
  obtain ⟨field, hfind, h⟩ := Except.bind_eq_ok_iff.mp h
  obtain ⟨graph, hload, h⟩ := Except.bind_eq_ok_iff.mp h
  rw [← Except.ok.inj h]
  obtain ⟨rfl, _⟩ := hsound.valid hfind
  obtain ⟨contents, hholds, _⟩ := hsound.graph field.name field hfind
  obtain ⟨opened, hopen, hshows⟩ := FieldGraph.exists_load hholds
  obtain rfl := Except.ok.inj (hload.symm.trans hopen)
  intro id node hnode
  exact ⟨node, hshows.node_eq (hholds.hasNode_iff.mp hnode), rfl, rfl⟩

/-- A session that goes on retains what it retained before. -/
lemma Continues.retainsNodes (h : session.Continues count next)
    (hretains : session.RetainsNodes) : next.RetainsNodes := by
  intro id node hnode
  rw [h.field, Snapshot.HasNode, h.grows.extends_txn.sameEntries.get?] at hnode
  obtain ⟨node', hnode', hlevel, hlocation⟩ := hretains id node hnode
  obtain ⟨node'', hnode'', hlevel', hlocation'⟩ := h.kept id node' hnode'
  exact ⟨node'', hnode'', hlevel'.trans hlevel, hlocation'.trans hlocation⟩

/-- **Committing a session retains what its transaction sees.**

**Proof sketch.** The commit writes no definitions. In the field of the session it writes the
records of the graph, and it keeps all others. -/
theorem Running.exists_retains (h : session.Running ledger added)
    (hretains : session.RetainsNodes) :
    ∃ txn', session.commit = .ok (added.length, txn') ∧
      session.txn.view.Retains ledger txn'.view (Function.update ledger session.field.name
        (ledger session.field.name ++ added)) := by
  obtain ⟨base, contents, txn', hshows, hcommit, hflushed, _⟩ := h.exists_flushed
  refine ⟨txn', hcommit, ?_⟩
  exact {
    field := fun name field hfind => by
      rwa [Snapshot.Sound.find_of_flushed hflushed]
    accepted := by
      intro name
      by_cases hname : name = session.field.name
      · rw [hname, Function.update_self]
        exact List.prefix_append _ _
      · rw [Function.update_of_ne hname]
    node := by
      intro name field hfind id node hnode
      by_cases hname : name = session.field.name
      · subst hname
        obtain ⟨node', hnode', hsame⟩ := hretains id node hnode
        exact ⟨node', hflushed.holds.hasNode_iff.mpr (hshows.node_eq_ok_iff.mp hnode'), hsame⟩
      · refine ⟨node, ?_, rfl, rfl⟩
        rw [Snapshot.HasNode, hflushed.get?_of_ne]
        · exact hnode
        · intro record hrecord _ heq
          have hplain : (RecordKey.node name id).IsPlain := h.view.slash_notMem hfind
          have hplain' : record.IsPlain := by
            rw [RecordKey.IsPlain, hrecord]
            exact h.view.slash_notMem h.field
          rw [← (RecordKey.bytes_inj hplain hplain').mp heq] at hrecord
          exact hname hrecord }

end Registration

namespace Index

variable {index between : Index} {allowed : Operation → Prop}

/-! ## Later states -/

/-- The newest state of the key space: what the write transaction sees, or else the latest
commit. -/
def newest (index : Index) : Snapshot :=
  match index.store.writer with
  | some txn => txn.view
  | none => index.store.committed

/-- The vectors that the fields have accepted in the newest state. -/
def newestLedger (index : Index) : Ledger :=
  match index.store.writer with
  | some _ => index.pending
  | none => index.committed

/-- The newest state is sound. -/
lemma Sound.newest (h : index.Sound) : index.newest.Sound index.newestLedger := by
  unfold Index.newest newestLedger
  cases hwriter : index.store.writer with
  | none => exact h.committed
  | some txn => exact h.writer txn hwriter

/-- **What is seen later in place of what is seen now**, with what the fields have accepted then.
What has been committed has its place in everything that is seen from then on. What the write
transaction sees has its place in the newest state, as long as no transaction is abandoned. -/
inductive Follows (allowed : Operation → Prop) (index : Index) :
    Snapshot → Ledger → Snapshot → Ledger → Prop
  /-- After a commit, in any transaction. -/
  | committed {later : Index} {next : Snapshot} {ledger : Ledger}
      (h : Leads allowed index later) (hsees : later.Sees next ledger) :
      Follows allowed index index.store.beginRead index.committed next ledger
  /-- After changes that have not been committed yet, in the newest state. -/
  | pending {txn : WriteTransaction} {later : Index} (hwriter : index.store.writer = some txn)
      (h : Leads (fun op => allowed op ∧ op ≠ .abandon) index later) :
      Follows allowed index txn.view index.pending later.newest later.newestLedger

/-! ## The invariant -/

/-- **The invariant of an index that loses nothing**: the write transaction retains the latest
commit, and the graph of a session that has not failed retains the nodes of its field. -/
structure Retaining (index : Index) : Prop where
  writer : ∀ txn, index.store.writer = some txn →
    index.store.committed.Retains index.committed txn.view index.pending
  session : ∀ session, index.session = some session → session.failure = none → session.RetainsNodes

/-- **One state is retained by the next**: the latest commit in the latest commit, and the newest
state in the newest state. -/
structure Advances (index next : Index) : Prop where
  retaining : next.Retaining
  committed : index.store.committed.Retains index.committed next.store.committed next.committed
  newest : index.newest.Retains index.newestLedger next.newest next.newestLedger

/-- An index without fields has nothing to keep. -/
lemma retaining_empty : empty.Retaining where
  writer txn h := by simp [empty, Store.empty] at h
  session session h := by simp [empty] at h

/-- An index goes on from itself. -/
lemma Advances.refl (h : index.Retaining) : index.Advances index where
  retaining := h
  committed := .refl _ _
  newest := .refl _ _

/-- The newest state is the one of the write transaction, if there is one. -/
lemma newest_eq {txn : WriteTransaction} (h : index.store.writer = some txn) :
    index.newest = txn.view ∧ index.newestLedger = index.pending := by
  rw [newest, newestLedger, h]
  exact ⟨rfl, rfl⟩

namespace Retaining

/-- The newest state retains the latest commit. -/
lemma newest (h : index.Retaining) :
    index.store.committed.Retains index.committed index.newest index.newestLedger := by
  unfold Index.newest newestLedger
  cases hwriter : index.store.writer with
  | none => exact .refl _ _
  | some txn => exact h.writer txn hwriter

/-! ## One operation -/

/-- A session that is opened, changed or ended leaves the store as it is. -/
lemma withSession (h : index.Retaining) {session : Option Registration} {added : List Accepted}
    (hsession : ∀ found, session = some found → found.failure = none → found.RetainsNodes) :
    index.Advances { index with session, added } where
  retaining := ⟨h.writer, hsession⟩
  committed := .refl _ _
  newest := .refl _ _

/-- A write transaction that retains what it sees, and perhaps a session in it. -/
lemma withWriter (h : index.Retaining) {txn next : WriteTransaction} {pending : Ledger}
    {session : Option Registration} {added : List Accepted}
    (hwriter : index.store.writer = some txn)
    (hretains : txn.view.Retains index.pending next.view pending)
    (hsession : ∀ found, session = some found → found.failure = none → found.RetainsNodes) :
    index.Advances { index.withWriter next with session, pending, added } where
  retaining := by
    refine ⟨?_, hsession⟩
    rintro _ ⟨⟩
    exact (h.writer txn hwriter).trans hretains
  committed := .refl _ _
  newest := by
    obtain ⟨hview, hledger⟩ := newest_eq hwriter
    rw [hview, hledger]
    exact hretains

/-- A new write transaction sees the latest commit.

**Proof sketch.** A transaction that has just been started sees what its base has. -/
lemma begin (h : index.Retaining) {store : Store} (hbegin : index.store.beginWrite = .ok store) :
    index.Advances { index with store, pending := index.committed } := by
  unfold Store.beginWrite at hbegin
  cases hwriter : index.store.writer with
  | some txn => simp [hwriter] at hbegin
  | none =>
    simp only [hwriter, Except.ok.injEq] at hbegin
    subst hbegin
    have hstart := Snapshot.Retains.of_get?_eq index.committed
      (WriteTransaction.get?_start index.store.committed)
    refine ⟨⟨?_, h.session⟩, .refl _ _, ?_⟩
    · rintro _ ⟨⟩
      exact hstart
    · unfold Index.newest newestLedger
      rw [hwriter]
      exact hstart

/-- What the transaction sees is what it commits. -/
lemma commit (h : index.Retaining) {txn : WriteTransaction} {version : Nat} {store : Store}
    (hwriter : index.store.writer = some txn)
    (hcommit : index.store.commit? = some (version, store)) :
    index.Advances { index with store, committed := index.pending } := by
  rw [Store.commit?, hwriter, Option.map_some, Option.some.injEq, Prod.mk.injEq] at hcommit
  obtain ⟨_, rfl⟩ := hcommit
  have hsame := Snapshot.Retains.of_get?_eq index.pending
    (show ∀ key, txn.commit.get? key = txn.view.get? key from fun _ => rfl)
  refine ⟨⟨fun _ hsome => (by cases hsome), h.session⟩, (h.writer txn hwriter).trans hsame, ?_⟩
  obtain ⟨hview, hledger⟩ := newest_eq hwriter
  rw [hview, hledger]
  exact hsame

variable {session : Registration}

/-- The source of levels does not matter. -/
lemma withGenerator (h : index.Retaining) (hsession : index.session = some session)
    (generator : Generator) :
    index.Advances { index with session := some { session with generator } } := by
  refine h.withSession ?_
  rintro _ ⟨⟩ hfailure
  exact h.session session hsession hfailure

/-- **Registering a vector** leaves the records as they are.

**Proof sketch.** The session goes on with the same records and perhaps more, and its transaction
has the same keys. -/
theorem register (h : index.Retaining) (hsound : index.Sound)
    (hsession : index.session = some session) {id : UInt64} {raw : Bytes} {level : Option Nat}
    (hfits : (Operation.register id raw level).Fits index) :
    index.Advances (index.register session id raw level) := by
  obtain ⟨hwriter, _⟩ := hsound.session session hsession
  have hcontinues := session.continues_registerAtLevel id raw level (hfits.1 session hsession)
  have hkeys := Snapshot.Retains.of_get?_eq index.pending
    hcontinues.grows.extends_txn.sameEntries.get?
  unfold Index.register
  cases hresult : session.registerAtLevel id raw level with
  | mk next answer =>
    rw [hresult] at hcontinues hkeys
    have hretains : ∀ found, some next = some found → found.failure = none →
        found.RetainsNodes := by
      rintro _ ⟨⟩ hfailure
      refine hcontinues.retainsNodes (h.session session hsession ?_)
      exact hcontinues.failure_eq_none hfailure
    cases answer with
    | ok _ => exact h.withWriter hwriter hkeys hretains
    | error e => exact h.withWriter hwriter hkeys hretains

/-- **Committing a session** changes links and adds vectors.

**Proof sketch.** A session that has not failed commits and retains what its transaction sees; one
that has leaves the transaction. -/
theorem finish (h : index.Retaining) (hsound : index.Sound)
    (hsession : index.session = some session) : index.Advances (index.finish session) := by
  obtain ⟨hwriter, hrunning⟩ := hsound.session session hsession
  unfold Index.finish
  cases hfailure : session.failure with
  | none =>
    obtain ⟨txn, hcommit, hretains⟩ :=
      (hrunning hfailure).exists_retains (h.session session hsession hfailure)
    rw [hcommit]
    exact h.withWriter hwriter hretains fun _ hsome => by cases hsome
  | some failed =>
    rw [Registration.commit, hfailure]
    exact h.withSession fun _ hsome => by cases hsome

/-- **One operation retains what is there**, unless it abandons the write transaction.

**Proof sketch.** One case for each operation, by the lemmas above. -/
theorem advances (h : index.Retaining) (hsound : index.Sound) {op : Operation}
    (hfits : op.Fits index) (hop : op ≠ .abandon) : index.Advances (index.step op) := by
  cases op with
  | begin =>
    unfold Index.step
    cases hbegin : index.store.beginWrite with
    | error e => exact .refl h
    | ok store => exact h.begin hbegin
  | create name options =>
    refine whenFree_cases (.refl h) fun txn hsession hwriter => ?_
    cases hcreate : Catalog.create txn name options with
    | error e => exact .refl h
    | ok created => exact h.withWriter hwriter (.of_create index.pending hcreate) h.session
  | start config name =>
    refine whenFree_cases (.refl h) fun txn _ hwriter => ?_
    cases hstart : Registration.start config txn name with
    | error e => exact .refl h
    | ok session =>
      refine h.withSession ?_
      rintro _ ⟨⟩ _
      exact Registration.retainsNodes_of_start (hsound.writer txn hwriter) hstart
  | reseed seed =>
    refine whenOpen_cases (.refl h) fun session hsession => ?_
    rw [Registration.withSeed]
    exact h.withGenerator hsession _
  | register id raw level =>
    exact whenOpen_cases (.refl h) fun session hsession => h.register hsound hsession hfits
  | finish => exact whenOpen_cases (.refl h) fun session hsession => h.finish hsound hsession
  | discard =>
    refine whenOpen_cases (.refl h) fun session hsession => ?_
    exact h.withWriter (hsound.session session hsession).1 (.refl _ _)
      fun _ hsome => by cases hsome
  | commit =>
    refine whenFree_cases (.refl h) fun txn hsession hwriter => ?_
    cases hcommit : index.store.commit? with
    | none => exact .refl h
    | some committed => exact h.commit hwriter hcommit
  | abandon => exact absurd rfl hop

/-- Abandoning the write transaction leaves the latest commit as it is. -/
lemma abandon (h : index.Retaining) :
    (index.step .abandon).Retaining ∧
      (index.step .abandon).store.committed = index.store.committed ∧
      (index.step .abandon).committed = index.committed := by
  refine whenFree_cases (P := fun next => next.Retaining ∧
    next.store.committed = index.store.committed ∧ next.committed = index.committed)
    ⟨h, rfl, rfl⟩ fun txn _ _ => ⟨⟨?_, h.session⟩, rfl, rfl⟩
  intro txn hsome
  cases hsome

/-- **One operation retains what has been committed.** -/
theorem step (h : index.Retaining) (hsound : index.Sound) {op : Operation}
    (hfits : op.Fits index) : (index.step op).Retaining ∧ index.store.committed.Retains
      index.committed (index.step op).store.committed (index.step op).committed := by
  by_cases hop : op = .abandon
  · subst hop
    obtain ⟨hretaining, hstore, hledger⟩ := h.abandon
    rw [hstore, hledger]
    exact ⟨hretaining, .refl _ _⟩
  · have hadvances := h.advances hsound hfits hop
    exact ⟨hadvances.retaining, hadvances.committed⟩

end Retaining

/-! ## Any number of operations -/

/-- **What has been committed is retained** by every later commit. -/
theorem Leads.retains_committed {later : Index} (h : Leads allowed index later)
    (hsound : index.Sound) (hretaining : index.Retaining) :
    later.Retaining ∧ index.store.committed.Retains index.committed later.store.committed
      later.committed := by
  induction h with
  | refl => exact ⟨hretaining, .refl _ _⟩
  | step hbefore op _ hfits ih =>
    obtain ⟨hbetween, hretains⟩ := ih
    obtain ⟨hnext, hstep⟩ := hbetween.step (hbefore.sound hsound) hfits
    exact ⟨hnext, hretains.trans hstep⟩

/-- **What the newest state holds is retained** by every newer one, unless a transaction is
abandoned. -/
theorem Leads.retains_newest {later : Index}
    (h : Leads (fun op => allowed op ∧ op ≠ .abandon) index later) (hsound : index.Sound)
    (hretaining : index.Retaining) :
    index.newest.Retains index.newestLedger later.newest later.newestLedger := by
  induction h with
  | refl => exact .refl _ _
  | step hbefore op hop hfits ih =>
    obtain ⟨hbetween, _⟩ := hbefore.retains_committed hsound hretaining
    exact ih.trans (hbetween.advances (hbefore.sound hsound) hfits hop.2).newest

namespace Reachable

/-- **Every state that can be reached loses nothing.** -/
theorem retaining (h : Reachable allowed index) : index.Retaining := by
  induction h with
  | empty => exact retaining_empty
  | step hbefore op _ hfits ih => exact (ih.step hbefore.sound hfits).1

variable {view next : Snapshot} {ledger later : Ledger} {name : String} {field : FieldRecord}

/-- **What is seen later retains what is seen now.**

**Proof sketch.** By which view it was. What is committed is retained by all operations, and what is
pending by those that do not abandon it. -/
theorem retains_of_follows (h : Reachable allowed index)
    (hfollows : Follows allowed index view ledger next later) :
    view.Retains ledger next later ∧ next.Sound later := by
  cases hfollows with
  | committed hleads hsees =>
    obtain ⟨hlater, hretains⟩ := hleads.retains_committed h.sound h.retaining
    have hsound := hleads.sound h.sound
    cases hsees with
    | reader => exact ⟨hretains, hsound.committed⟩
    | writer txn hwriter =>
      exact ⟨hretains.trans (hlater.writer txn hwriter), hsound.writer txn hwriter⟩
  | pending hwriter hleads =>
    obtain ⟨hview, hledger⟩ := newest_eq hwriter
    rw [← hview, ← hledger]
    exact ⟨hleads.retains_newest h.sound h.retaining, (hleads.sound h.sound).newest⟩

/-- **The records of a field stand for the vectors that it has accepted, and these stay in their
places.** As any transaction sees them, the node records, the lists of the containers and the count
of the header are about the same vectors, each of them once; every node leads to the slot that holds
its vector, and no two share a slot; and searches start at a node on the top layer. Whatever happens
later, every node that is there stays on its layers and in its place, and the bytes in its slot stay
the same.

**Proof sketch.** What a transaction sees is sound, and so is what is seen later. An operation
changes links, adds nodes and fills free slots, and the vectors that have been accepted come first
among those that are accepted later. -/
theorem exists_accounts_retained (h : Reachable allowed index) (hsees : index.Sees view ledger)
    (hfind : Catalog.find view name = .ok field) :
    ∃ header, view.Accounts field (ledger name) header ∧
      ∀ next later, Follows allowed index view ledger next later →
        Catalog.find next name = .ok field ∧ ledger name <+: later name ∧
        ∃ header', next.Accounts field (later name) header' ∧
          ∀ vector ∈ ledger name, ∀ node, view.HasNode name vector.id node →
            ∃ node', next.Files field header' vector node' ∧ node'.level = node.level ∧
              node'.location = node.location := by
  have hview := h.sound_view hsees
  obtain ⟨rfl, _⟩ := hview.valid hfind
  obtain ⟨header, haccounts⟩ := hview.exists_accounts hfind
  refine ⟨header, haccounts, fun next later hfollows => ?_⟩
  obtain ⟨hretains, hnext⟩ := h.retains_of_follows hfollows
  have hfind' := hretains.field field.name field hfind
  have hfirst := hretains.accepted field.name
  obtain ⟨header', haccounts'⟩ := hnext.exists_accounts hfind'
  refine ⟨hfind', hfirst, header', haccounts', fun vector hvector node hnode => ?_⟩
  obtain ⟨node', hnode', hsame⟩ := hretains.node field.name field hfind vector.id node hnode
  obtain ⟨filed, hfiled⟩ := haccounts'.files vector (hfirst.subset hvector)
  obtain rfl := hnode'.unique hfiled.record
  exact ⟨node', hfiled, hsame⟩

/-- The first of two vectors stays in its place when the second one comes. -/
theorem exists_retained_growing : ∃ (view next : Snapshot) (field : FieldRecord)
    (header header' : GraphHeader) (node node' : NodeRecord),
    Catalog.find view "v" = .ok field ∧ view.Accounts field [.zero] header ∧
      next.Accounts field [.zero, .one] header' ∧ view.Files field header .zero node ∧
      next.Files field header' .zero node' ∧ node'.level = node.level ∧
      node'.location = node.location := by
  obtain ⟨index, later, field, hreachable, hleads, hfind, _, _, hbefore, hafter⟩ :=
    @exists_growing (some 2) (by decide)
  obtain ⟨hname, _⟩ := (hreachable.sound_view .reader).valid hfind
  obtain ⟨header, haccounts, hlater⟩ := hreachable.exists_accounts_retained .reader hfind
  obtain ⟨_, _, header', haccounts', hkept⟩ := hlater _ _ (.committed hleads .reader)
  rw [hbefore] at haccounts hkept
  rw [hafter] at haccounts'
  obtain ⟨node, hfiled⟩ := haccounts.files .zero (List.mem_singleton_self _)
  obtain ⟨node', hfiled', hlevel, hlocation⟩ :=
    hkept .zero (List.mem_singleton_self _) node (hname ▸ hfiled.record)
  exact ⟨_, _, field, header, header', node, node', hfind, haccounts, haccounts', hfiled, hfiled',
    hlevel, hlocation⟩

end Reachable

end Index

end Proximity

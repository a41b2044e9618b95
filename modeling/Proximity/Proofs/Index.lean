import Proximity.Proofs.Session
import Proximity.Store

set_option relaxedAutoImplicit false
set_option autoImplicit false

/-!
# The index as a state machine

An index starts empty and takes one operation after another: write transactions are opened,
committed and abandoned, fields are created, and sessions on them register vectors and are finished
or discarded. An operation that has to be refused leaves the index as it is. Beside the store and
the open session, the state records which vectors the fields have accepted.

One step keeps the invariant, and so every state that can be reached satisfies it.

## Main definitions

* `Proximity.Index` — the state.
* `Proximity.Operation`, `Proximity.Index.step` — the operations, and what they do.
* `Proximity.Index.Reachable` — the states that operations of some kind can lead to.
* `Proximity.Index.Leads` — the states that they can lead to from another state.
* `Proximity.Index.Sees` — what a transaction sees, and what its fields have accepted.
* `Proximity.Index.Sound` — the invariant.

## Main results

* `Proximity.Index.Sound.step` — one operation keeps the invariant.
* `Proximity.Index.Reachable.sound` — it holds in every state that can be reached.
* `Proximity.Index.Reachable.healthy` — no session fails where all vectors are short enough.

## Design

A reader keeps the snapshot that was the latest when it was opened. What holds of the committed
snapshot in every state that can be reached therefore holds of what any reader sees.
-/

namespace Proximity

/-- An index: its store, the session that is open in the write transaction, and the vectors that
have been accepted. -/
structure Index where
  /-- The page store. -/
  store : Store
  /-- The open session. -/
  session : Option Registration
  /-- The vectors that the fields have accepted as of the latest commit. -/
  committed : Ledger
  /-- The vectors that the fields have accepted as the write transaction sees them. -/
  pending : Ledger
  /-- The vectors that the open session has registered. -/
  added : List Accepted

/-- An operation on an index. -/
inductive Operation
  /-- Opens the write transaction. -/
  | begin
  /-- Defines a field. -/
  | create (name : String) (options : FieldOptions)
  /-- Opens a session on a field. -/
  | start (config : Config) (name : String)
  /-- Has the session draw levels from another seed. -/
  | reseed (seed : UInt64)
  /-- Registers a vector in the session, at a level that is given or else drawn. -/
  | register (id : UInt64) (raw : Bytes) (level : Option Nat)
  /-- Commits the session into the write transaction. -/
  | finish
  /-- Gives the session up. -/
  | discard
  /-- Commits the write transaction. -/
  | commit
  /-- Ends the write transaction without a trace. -/
  | abandon

namespace Index

/-! ## Steps -/

/-- An index without commits. -/
def empty : Index where
  store := .empty
  session := none
  committed _ := []
  pending _ := []
  added := []

/-- Goes on with the write transaction, if there is one that no session has. -/
def whenFree (index : Index) (next : WriteTransaction → Index) : Index :=
  match index.session, index.store.writer with
  | none, some txn => next txn
  | _, _ => index

/-- Goes on with the open session, if there is one. -/
def whenOpen (index : Index) (next : Registration → Index) : Index :=
  match index.session with
  | some session => next session
  | none => index

/-- The index with another write transaction. -/
def withWriter (index : Index) (txn : WriteTransaction) : Index :=
  { index with store := { index.store with writer := some txn } }

/-- A vector as a session would register it. -/
def accept (session : Registration) (id : UInt64) (raw : Bytes) : Accepted :=
  ⟨⟨id⟩, raw, ((Codec.ofOptions session.field.options).encode raw).toOption.getD []⟩

/-- Registers a vector in an open session. -/
def register (index : Index) (session : Registration) (id : UInt64) (raw : Bytes)
    (level : Option Nat) : Index :=
  match session.registerAtLevel id raw level with
  | (next, .ok _) => { index.withWriter next.txn with
      session := some next, added := index.added ++ [accept session id raw] }
  | (next, .error _) => { index.withWriter next.txn with session := some next }

/-- Commits an open session. The session is over, whether it can be committed or not. -/
def finish (index : Index) (session : Registration) : Index :=
  match session.commit with
  | .ok (_, txn) => { index.withWriter txn with
      session := none
      pending := Function.update index.pending session.field.name
        (index.pending session.field.name ++ index.added) }
  | .error _ => { index with session := none }

/-- The index after an operation; it stays as it is if the operation is refused. -/
def step (index : Index) : Operation → Index
  | .begin =>
    match index.store.beginWrite with
    | .ok store => { index with store, pending := index.committed }
    | .error _ => index
  | .create name options => index.whenFree fun txn =>
    match Catalog.create txn name options with
    | .ok (_, txn) => index.withWriter txn
    | .error _ => index
  | .start config name => index.whenFree fun txn =>
    match Registration.start config txn name with
    | .ok session => { index with session := some session, added := [] }
    | .error _ => index
  | .reseed seed => index.whenOpen fun session =>
    { index with session := some (session.withSeed seed) }
  | .register id raw level => index.whenOpen fun session => index.register session id raw level
  | .finish => index.whenOpen index.finish
  | .discard => index.whenOpen fun session =>
    { index.withWriter session.rollback with session := none }
  | .commit => index.whenFree fun _ =>
    match index.store.commit? with
    | some (_, store) => { index with store, committed := index.pending }
    | none => index
  | .abandon => index.whenFree fun _ => { index with store := index.store.abandon }

end Index

/-! ## States that can be reached -/

/-- An operation is within the range of the machine integers: the options of a field and the version
at which it is created fit into their fields, the page numbers of the store suffice for one more
run, and a level is one that can be drawn. -/
def Operation.Fits (index : Index) : Operation → Prop
  | .create _ options =>
    options.Fits ∧ ∀ txn, index.store.writer = some txn → txn.version < UInt64.size
  | .register _ _ level =>
    (∀ session, index.session = some session →
      session.txn.nextPage.toNat + UInt32.size ≤ UInt64.size) ∧ ∀ l, level = some l → l ≤ maxLevel
  | _ => True

/-- An operation brings no vector whose stored form could be too long for any page run. -/
def Operation.IsShort : Operation → Prop
  | .register _ raw _ => raw.length + 4 ≤ maxStoredLength
  | _ => True

namespace Index

/-- **The states that can be reached** from the empty index by operations of some kind. -/
inductive Reachable (allowed : Operation → Prop) : Index → Prop
  /-- Nothing has happened yet. -/
  | empty : Reachable allowed empty
  /-- One more operation. -/
  | step {index : Index} (h : Reachable allowed index) (op : Operation) (hop : allowed op)
      (hfits : op.Fits index) : Reachable allowed (index.step op)

/-- **The states that operations of some kind can lead to** from a state. -/
inductive Leads (allowed : Operation → Prop) (index : Index) : Index → Prop
  /-- Nothing more has happened. -/
  | refl : Leads allowed index index
  /-- One more operation. -/
  | step {between : Index} (h : Leads allowed index between) (op : Operation) (hop : allowed op)
      (hfits : op.Fits between) : Leads allowed index (between.step op)

/-- What a transaction on the index sees, and the vectors that its fields have accepted. -/
inductive Sees (index : Index) : Snapshot → Ledger → Prop
  /-- A reader sees the latest commit. -/
  | reader : Sees index index.store.beginRead index.committed
  /-- The writer sees its own changes. -/
  | writer (txn : WriteTransaction) (h : index.store.writer = some txn) :
      Sees index txn.view index.pending

/-! ## The invariant -/

/-- **The invariant of an index**: what transactions see is sound, and so is a session that has not
failed. -/
structure Sound (index : Index) : Prop where
  committed : index.store.committed.Sound index.committed
  writer : ∀ txn, index.store.writer = some txn → txn.view.Sound index.pending
  session : ∀ session, index.session = some session →
    index.store.writer = some session.txn ∧
      (session.failure = none → session.Running index.pending index.added)

variable {index : Index} {allowed : Operation → Prop} {view : Snapshot} {ledger : Ledger}

/-- What has to be shown of an operation that needs a free write transaction. -/
lemma whenFree_cases {P : Index → Prop} (h : P index) {next : WriteTransaction → Index}
    (hnext : ∀ txn, index.session = none → index.store.writer = some txn → P (next txn)) :
    P (index.whenFree next) := by
  unfold whenFree
  cases hsession : index.session with
  | some session => exact h
  | none =>
    cases hwriter : index.store.writer with
    | none => exact h
    | some txn => exact hnext txn hsession hwriter

/-- What has to be shown of an operation that needs an open session. -/
lemma whenOpen_cases {P : Index → Prop} (h : P index) {next : Registration → Index}
    (hnext : ∀ session, index.session = some session → P (next session)) :
    P (index.whenOpen next) := by
  unfold whenOpen
  cases hsession : index.session with
  | none => exact h
  | some session => exact hnext session hsession

/-- An index without fields is sound. -/
lemma sound_empty : empty.Sound where
  committed := Snapshot.sound_empty
  writer txn h := by simp [empty, Store.empty] at h
  session session h := by simp [empty] at h

namespace Sound

/-- A new write transaction sees what has been committed.

**Proof sketch.** A transaction that has just been started sees what its base has, and no session is
open while there is no transaction. -/
lemma begin {store : Store} (h : index.Sound) (hbegin : index.store.beginWrite = .ok store) :
    ({ index with store, pending := index.committed } : Index).Sound := by
  unfold Store.beginWrite at hbegin
  cases hwriter : index.store.writer with
  | some txn => simp [hwriter] at hbegin
  | none =>
    simp only [hwriter, Except.ok.injEq] at hbegin
    subst hbegin
    exact {
      committed := h.committed
      writer := by
        rintro _ ⟨⟩
        exact h.committed.congr (WriteTransaction.get?_start _) (UInt64.le_refl _)
          fun page _ => WriteTransaction.run_start _ page
      session := fun session hsession => by
        rw [(h.session session hsession).1] at hwriter
        cases hwriter }

/-- An open session that may have failed. -/
lemma withSession (h : index.Sound) {next : Registration} {added : List Accepted}
    (hview : next.txn.view.Sound index.pending)
    (hrunning : next.failure = none → next.Running index.pending added) :
    ({ index.withWriter next.txn with session := some next, added } : Index).Sound where
  committed := h.committed
  writer := by
    rintro _ ⟨⟩
    exact hview
  session := by
    rintro _ ⟨⟩
    exact ⟨rfl, hrunning⟩

variable {session : Registration}

/-- **Registering a vector keeps the invariant**, and a vector that is not too long does not make a
session fail.

**Proof sketch.** A session that has failed refuses the vector. Otherwise the vector is refused,
taken in, or lost to a failure of the session, and in the last case nothing is claimed of the graph
of the session. -/
theorem register (h : index.Sound) (hsession : index.session = some session) {id : UInt64}
    {raw : Bytes} {level : Option Nat} (hfits : (Operation.register id raw level).Fits index) :
    (index.register session id raw level).Sound ∧
      (session.failure = none → raw.length + 4 ≤ maxStoredLength →
        ∃ next, (index.register session id raw level).session = some next ∧
          next.failure = none) := by
  obtain ⟨hwriter, hrunning⟩ := h.session session hsession
  have hview := h.writer _ hwriter
  by_cases hfailure : session.failure = none
  swap
  · -- A session that has failed refuses everything.
    obtain ⟨failed, hfailed⟩ := Option.ne_none_iff_exists'.mp hfailure
    have hrefused : session.registerAtLevel id raw level =
        (session, .error (.registrationAborted failed.1 failed.2)) := by
      cases level <;>
        simp only [Registration.registerAtLevel, Registration.register, Registration.check, hfailed,
          Except.throw_eq_error]
    refine ⟨?_, fun hnone => absurd hnone hfailure⟩
    rw [Index.register, hrefused]
    exact h.withSession hview hrunning
  have hrunning := hrunning hfailure
  rcases hrunning.register_cases id raw (hfits.1 session hsession) hfits.2 with
    ⟨e, hresult, _⟩ | ⟨next, stored, hresult, hencode, hnext⟩ |
      ⟨hlong, next, e, hresult, hfailed, hextends⟩
  · rw [Index.register, hresult]
    exact ⟨h.withSession hview fun _ => hrunning, fun _ _ => ⟨session, rfl, hfailure⟩⟩
  · have haccept : accept session id raw = ⟨⟨id⟩, raw, stored⟩ := by
      rw [accept, hencode]
      rfl
    rw [Index.register, hresult, haccept]
    exact ⟨h.withSession hnext.view fun _ => hnext, fun _ _ => ⟨next, rfl, hnext.failure⟩⟩
  · rw [Index.register, hresult]
    exact ⟨h.withSession (hview.extends_txn hextends) fun hnone => absurd hnone hfailed,
      fun _ hshort => absurd hshort (Nat.not_le.mpr hlong)⟩

/-- **Committing a session keeps the invariant.**

**Proof sketch.** A session that has not failed commits to a sound transaction; one that has leaves
the transaction as it was. -/
theorem finish (h : index.Sound) (hsession : index.session = some session) :
    (index.finish session).Sound := by
  obtain ⟨hwriter, hrunning⟩ := h.session session hsession
  by_cases hfailure : session.failure = none
  · obtain ⟨txn, hcommit, _, _, hsound⟩ := (hrunning hfailure).exists_commit
    rw [Index.finish, hcommit]
    exact {
      committed := h.committed
      writer := by
        rintro _ ⟨⟩
        exact hsound
      session := fun _ hsome => by cases hsome }
  · obtain ⟨failed, hfailed⟩ := Option.ne_none_iff_exists'.mp hfailure
    rw [Index.finish, Registration.commit, hfailed]
    exact ⟨h.committed, h.writer, fun _ hsome => by cases hsome⟩

/-- A field may be created while no session is open. -/
lemma create (h : index.Sound) {txn txn' : WriteTransaction} {name : String}
    {options : FieldOptions} {record : FieldRecord} (hsession : index.session = none)
    (hwriter : index.store.writer = some txn) (hfits : (Operation.create name options).Fits index)
    (hcreate : Catalog.create txn name options = .ok (record, txn')) :
    (index.withWriter txn').Sound where
  committed := h.committed
  writer := by
    rintro _ ⟨⟩
    exact (h.writer txn hwriter).create hfits.1 (hfits.2 txn hwriter) hcreate
  session session hsome := by
    rw [show index.session = some session from hsome] at hsession
    cases hsession

/-- A session that is opened has registered nothing. -/
lemma start (h : index.Sound) {txn : WriteTransaction} {config : Config} {name : String}
    (hwriter : index.store.writer = some txn)
    (hstart : Registration.start config txn name = .ok session) :
    ({ index with session := some session, added := [] } : Index).Sound where
  committed := h.committed
  writer := h.writer
  session := by
    rintro _ ⟨⟩
    obtain ⟨field, hfind, _⟩ := Except.bind_eq_ok_iff.mp hstart
    obtain ⟨session', hstart', htxn, _, hrunning⟩ :=
      Registration.exists_start config (h.writer txn hwriter) hfind
    obtain rfl := Except.ok.inj (hstart.symm.trans hstart')
    exact ⟨htxn ▸ hwriter, fun _ => hrunning⟩

/-- The source of levels does not matter. -/
lemma withGenerator (h : index.Sound) (hsession : index.session = some session)
    (generator : Generator) :
    ({ index with session := some { session with generator } } : Index).Sound where
  committed := h.committed
  writer := h.writer
  session := by
    rintro _ ⟨⟩
    obtain ⟨hwriter, hrunning⟩ := h.session session hsession
    exact ⟨hwriter, fun hfailure => (hrunning hfailure).withGenerator generator⟩

/-- What a transaction sees is what it commits. -/
lemma commit (h : index.Sound) {txn : WriteTransaction} {version : Nat} {store : Store}
    (hsession : index.session = none) (hwriter : index.store.writer = some txn)
    (hcommit : index.store.commit? = some (version, store)) :
    ({ index with store, committed := index.pending } : Index).Sound := by
  rw [Store.commit?, hwriter, Option.map_some, Option.some.injEq, Prod.mk.injEq] at hcommit
  obtain ⟨_, rfl⟩ := hcommit
  exact {
    committed := (h.writer txn hwriter).congr (fun key => WriteTransaction.get?_commit txn key)
      (UInt64.le_refl _) fun page _ => WriteTransaction.run_commit txn page
    writer := fun _ hsome => by cases hsome
    session := fun session hsome => by
      rw [show index.session = some session from hsome] at hsession
      cases hsession }

/-- **One operation keeps the invariant.**

**Proof sketch.** One case for each operation; those that are refused change nothing. -/
theorem step (h : index.Sound) {op : Operation} (hfits : op.Fits index) :
    (index.step op).Sound := by
  cases op with
  | begin =>
    unfold Index.step
    cases hbegin : index.store.beginWrite with
    | error e => exact h
    | ok store => exact h.begin hbegin
  | create name options =>
    refine whenFree_cases h fun txn hsession hwriter => ?_
    cases hcreate : Catalog.create txn name options with
    | error e => exact h
    | ok created => exact h.create hsession hwriter hfits hcreate
  | start config name =>
    refine whenFree_cases h fun txn _ hwriter => ?_
    cases hstart : Registration.start config txn name with
    | error e => exact h
    | ok session => exact h.start hwriter hstart
  | reseed seed =>
    refine whenOpen_cases h fun session hsession => ?_
    rw [Registration.withSeed]
    exact h.withGenerator hsession _
  | register id raw level =>
    exact whenOpen_cases h fun session hsession => (h.register hsession hfits).1
  | finish => exact whenOpen_cases h fun session hsession => h.finish hsession
  | discard =>
    refine whenOpen_cases h fun session hsession => ⟨h.committed, ?_, fun _ hsome => by cases hsome⟩
    rintro _ ⟨⟩
    exact h.writer _ (h.session session hsession).1
  | commit =>
    refine whenFree_cases h fun txn hsession hwriter => ?_
    cases hcommit : index.store.commit? with
    | none => exact h
    | some committed => exact h.commit hsession hwriter hcommit
  | abandon =>
    refine whenFree_cases h fun txn hsession _ => ⟨h.committed, fun _ hsome => (by cases hsome), ?_⟩
    intro session hsome
    rw [show index.session = some session from hsome] at hsession
    cases hsession

end Sound

/-- What a sound index leads to is sound. -/
lemma Leads.sound {later : Index} (h : Leads allowed index later) (hsound : index.Sound) :
    later.Sound := by
  induction h with
  | refl => exact hsound
  | step _ op _ hfits ih => exact ih.step hfits

/-- What can be reached from a state that can be reached can be reached. -/
lemma Leads.reachable {later : Index} (h : Leads allowed index later)
    (hreachable : Reachable allowed index) : Reachable allowed later := by
  induction h with
  | refl => exact hreachable
  | step _ op hop hfits ih => exact ih.step op hop hfits

/-- What a state leads to leads on. -/
lemma Leads.trans {later last : Index} (h : Leads allowed index later)
    (h' : Leads allowed later last) : Leads allowed index last := by
  induction h' with
  | refl => exact h
  | step _ op hop hfits ih => exact ih.step op hop hfits

/-- No session has failed. -/
def Healthy (index : Index) : Prop :=
  ∀ session, index.session = some session → session.failure = none

/-- **One operation that brings no vector that is too long does not make a session fail.**

**Proof sketch.** One case for each operation. Only a registration can make a session fail, and it
does not for a vector that is not too long. -/
theorem Healthy.step (h : index.Healthy) (hsound : index.Sound) {op : Operation}
    (hfits : op.Fits index) (hshort : op.IsShort) : (index.step op).Healthy := by
  cases op with
  | begin =>
    unfold Index.step
    cases index.store.beginWrite with
    | error e => exact h
    | ok store => exact h
  | create name options =>
    refine whenFree_cases h fun txn _ _ => ?_
    cases Catalog.create txn name options with
    | error e => exact h
    | ok created => exact h
  | start config name =>
    refine whenFree_cases h fun txn _ hwriter => ?_
    cases hstart : Registration.start config txn name with
    | error e => exact h
    | ok session =>
      rintro _ ⟨⟩
      obtain ⟨field, _, hrest⟩ := Except.bind_eq_ok_iff.mp hstart
      obtain ⟨graph, _, hrest⟩ := Except.bind_eq_ok_iff.mp hrest
      rw [← Except.ok.inj hrest]
  | reseed seed =>
    refine whenOpen_cases h fun session hsession => ?_
    rw [Registration.withSeed]
    rintro _ ⟨⟩
    exact h session hsession
  | register id raw level =>
    refine whenOpen_cases h fun session hsession => ?_
    obtain ⟨next, hnext, hfailure⟩ :=
      (hsound.register hsession hfits).2 (h session hsession) hshort
    intro found hfound
    rwa [← Option.some.inj (hnext.symm.trans hfound)]
  | finish =>
    refine whenOpen_cases h fun session _ => ?_
    unfold Index.finish
    cases session.commit with
    | error e => exact fun _ hsome => by cases hsome
    | ok result => exact fun _ hsome => by cases hsome
  | discard => exact whenOpen_cases h fun _ _ _ hsome => by cases hsome
  | commit =>
    refine whenFree_cases h fun _ _ _ => ?_
    cases index.store.commit? with
    | none => exact h
    | some committed => exact h
  | abandon => exact whenFree_cases h fun _ _ _ => h

namespace Reachable

/-- **The invariant holds in every state that can be reached.** -/
theorem sound (h : Reachable allowed index) : index.Sound := by
  induction h with
  | empty => exact sound_empty
  | step _ op _ hfits ih => exact ih.step hfits

/-- **What a transaction sees is sound.** -/
theorem sound_view (h : Reachable allowed index) (hsees : index.Sees view ledger) :
    view.Sound ledger := by
  cases hsees with
  | reader => exact h.sound.committed
  | writer txn hwriter => exact h.sound.writer txn hwriter

/-- **No session fails** where all vectors are short enough for a page run. -/
theorem healthy (h : Reachable Operation.IsShort index) : index.Healthy := by
  induction h with
  | empty => exact fun _ hsome => by cases hsome
  | step hbefore op hop hfits ih => exact ih.step hbefore.sound hfits hop

/-- An open session has not failed, and it keeps its invariant. -/
lemma running (h : Reachable Operation.IsShort index) {session : Registration}
    (hsession : index.session = some session) : session.Running index.pending index.added :=
  (h.sound.session session hsession).2 (h.healthy session hsession)

end Reachable

end Index

end Proximity

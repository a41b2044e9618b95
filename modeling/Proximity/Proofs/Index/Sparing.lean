import Proximity.Proofs.Index
import Proximity.Proofs.Registration.Resemblance

set_option relaxedAutoImplicit false
set_option autoImplicit false

/-!
# Operations on one field

Fields are created and sessions are opened on them, and a session is used until it is over. An
operation of this kind concerns one field. It leaves the committed snapshot as it is, and the write
transaction goes on with the definitions and graphs that it has of all other fields.

## Main definitions

* `Proximity.Operation.Touches` — the operations that concern one field.
* `Proximity.Index.Attends` — an index without a session on another field.
* `Proximity.Operation.On` — the operations that concern one field where they stand.
* `Proximity.WriteTransaction.Spares` — a write transaction that has gone on in one field at most.
* `Proximity.Index.Spares` — an index that has gone on in one field at most.
* `Proximity.Index.Affords` — operations that are within the range of the machine integers, each in
  its turn.

## Main results

* `Proximity.Index.Sound.spares_step` — an operation spares the other fields.
* `Proximity.Index.Sound.spares_foldl` — so do some operations, one after the other.
-/

namespace Proximity

variable {name : String} {count more : Nat} {ops : List Operation} {op : Operation}

/-! ## Write transactions -/

namespace Snapshot

variable {view next later : Snapshot}

/-- What is kept, and kept again, is kept. -/
lemma Keeps.trans (h : Keeps name view next) (h' : Keeps name next later) :
    Keeps name view later where
  definition other hne := (h'.definition other hne).trans (h.definition other hne)
  holds other field contents hne hfind hholds :=
    h'.holds other field contents hne ((find_congr (h.definition other hne)).trans hfind)
      (h.holds other field contents hne hfind hholds)

end Snapshot

namespace WriteTransaction

variable {txn next later : WriteTransaction}

/-- **A write transaction has gone on in one field at most**, and it has handed out no more than
some number of page runs. -/
structure Spares (name : String) (count : Nat) (txn next : WriteTransaction) : Prop where
  keeps : Snapshot.Keeps name txn.view next.view
  base : next.base = txn.base
  le_nextPage : txn.nextPage ≤ next.nextPage
  nextPage_le : next.nextPage.toNat ≤ txn.nextPage.toNat + count * UInt32.size

namespace Spares

/-- A transaction has gone on from itself in no field. -/
lemma refl (name : String) (txn : WriteTransaction) : txn.Spares name 0 txn where
  keeps := .refl name txn.view
  base := rfl
  le_nextPage := UInt64.le_refl _
  nextPage_le := Nat.le_add_right _ _

/-- A transaction may go on in one field step by step; the runs add up. -/
lemma trans (h : txn.Spares name count next) (h' : next.Spares name more later) :
    txn.Spares name (count + more) later where
  keeps := h.keeps.trans h'.keeps
  base := h'.base.trans h.base
  le_nextPage := UInt64.le_trans h.le_nextPage h'.le_nextPage
  nextPage_le := by
    have hle := h.nextPage_le
    have hle' := h'.nextPage_le
    rw [Nat.add_mul]
    omega

/-- The bound on the runs may be greater. -/
lemma mono (h : txn.Spares name count next) (hle : count ≤ more) : txn.Spares name more next where
  keeps := h.keeps
  base := h.base
  le_nextPage := h.le_nextPage
  nextPage_le := h.nextPage_le.trans (Nat.add_le_add_left (Nat.mul_le_mul_right _ hle) _)

end Spares

end WriteTransaction

/-! ## Operations -/

/-- An operation concerns one field: it creates the field, opens a session on it, or uses a session
that is open. -/
def Operation.Touches (name : String) : Operation → Prop
  | .create other _ => other = name
  | .start _ other => other = name
  | .reseed _ | .register .. | .finish | .discard => True
  | .begin | .commit | .abandon => False

namespace Index

variable {index next later : Index}

/-- No session is open on another field. -/
def Attends (name : String) (index : Index) : Prop :=
  ∀ session, index.session = some session → session.field.name = name

/-- Where no session is open, none is open on another field. -/
lemma attends_of_closed (h : index.session = none) (name : String) : index.Attends name := by
  intro session hsession
  rw [h] at hsession
  cases hsession

/-- There is only one field that a session can be open on. -/
lemma exists_attends (index : Index) : ∃ name, index.Attends name := by
  cases hsession : index.session with
  | none => exact ⟨"", attends_of_closed hsession ""⟩
  | some session =>
    refine ⟨session.field.name, fun found hfound => ?_⟩
    rw [← Option.some.inj (hsession.symm.trans hfound)]

end Index

/-- An operation concerns one field where it stands: whatever uses a session uses one on that
field. -/
def Operation.On (index : Index) (name : String) : Operation → Prop
  | .create other _ => other = name
  | .start _ other => other = name
  | .reseed _ | .register .. | .finish | .discard => index.Attends name
  | .begin | .commit | .abandon => False

/-- An operation that touches a field is on it unless a session is open on another one. -/
lemma Operation.Touches.on {index : Index} (h : op.Touches name) (hattends : index.Attends name) :
    op.On index name := by
  cases op <;> first | exact h | exact hattends

namespace Index

variable {index next later : Index}

/-- **An index has gone on in one field at most**, in the write transaction that is open. -/
structure Spares (name : String) (count : Nat) (index next : Index) : Prop where
  committed : next.store.committed = index.store.committed
  accepted : next.committed = index.committed
  writer : Option.Rel (WriteTransaction.Spares name count) index.store.writer next.store.writer
  pending : ∀ other, other ≠ name → next.pending other = index.pending other

namespace Spares

/-- An index has gone on in no field if its store and the vectors of its fields stay. -/
lemma of_store_eq (name : String) (hstore : next.store = index.store)
    (haccepted : next.committed = index.committed) (hpending : next.pending = index.pending) :
    index.Spares name count next where
  committed := congrArg Store.committed hstore
  accepted := haccepted
  writer := by
    rw [hstore]
    cases index.store.writer with
    | none => exact .none
    | some txn => exact .some ((WriteTransaction.Spares.refl name txn).mono (Nat.zero_le count))
  pending _ _ := by rw [hpending]

/-- An index has gone on from itself in no field. -/
lemma refl (name : String) (index : Index) : index.Spares name count index :=
  .of_store_eq name rfl rfl rfl

/-- An index may go on in one field step by step; the runs add up. -/
lemma trans (h : index.Spares name count next) (h' : next.Spares name more later) :
    index.Spares name (count + more) later where
  committed := h'.committed.trans h.committed
  accepted := h'.accepted.trans h.accepted
  writer := by
    have hnext := h.writer
    have hlater := h'.writer
    revert hnext hlater
    cases index.store.writer <;> cases next.store.writer <;> cases later.store.writer <;>
      rintro ⟨⟩ ⟨⟩
    · exact .none
    · exact .some (WriteTransaction.Spares.trans ‹_› ‹_›)
  pending other hne := (h'.pending other hne).trans (h.pending other hne)

/-- The write transaction has gone on from the one that was open before. -/
lemma exists_writer {txn' : WriteTransaction} (h : index.Spares name count next)
    (hwriter : next.store.writer = some txn') :
    ∃ txn, index.store.writer = some txn ∧ txn.Spares name count txn' := by
  have hrel := h.writer
  rw [hwriter] at hrel
  cases hbefore : index.store.writer with
  | none =>
    rw [hbefore] at hrel
    cases hrel
  | some txn =>
    rw [hbefore] at hrel
    obtain htxn | _ := hrel
    exact ⟨txn, rfl, htxn⟩

/-- The write transaction goes on. -/
lemma of_writer {txn txn' : WriteTransaction} (hwriter : index.store.writer = some txn)
    (htxn : txn.Spares name count txn') (hstore : next.store = (index.withWriter txn').store)
    (haccepted : next.committed = index.committed)
    (hpending : ∀ other, other ≠ name → next.pending other = index.pending other) :
    index.Spares name count next where
  committed := by rw [hstore, withWriter]
  accepted := haccepted
  writer := by
    rw [hstore, hwriter]
    exact .some htxn
  pending := hpending

end Spares

/-! ## One operation -/

variable {session : Registration}

/-- What a session writes, and how it ends, concerns its field.

**Proof sketch.** A commit keeps what belongs to other fields and hands out no run. One that fails
changes nothing. -/
lemma Sound.spares_finish (h : index.Sound) (hsession : index.session = some session) :
    index.Spares session.field.name 1 (index.finish session) := by
  obtain ⟨hwriter, hrunning⟩ := h.session session hsession
  cases hcommit : session.commit with
  | error e =>
    rw [Index.finish, hcommit]
    exact .of_store_eq _ rfl rfl rfl
  | ok result =>
    obtain ⟨count, txn⟩ := result
    obtain ⟨_, _, txn', _, hcommit', _, hkeeps, _, hbase, hnext⟩ :=
      (hrunning (Registration.exists_of_commit hcommit).1).exists_commit_keeps
    obtain ⟨_, rfl⟩ := Prod.mk.inj (Except.ok.inj (hcommit.symm.trans hcommit'))
    rw [Index.finish, hcommit]
    refine .of_writer hwriter ⟨hkeeps, hbase, UInt64.le_of_eq hnext.symm, ?_⟩ rfl rfl
      fun other hne => Function.update_of_ne hne _ _
    rw [hnext]
    exact Nat.le_add_right _ _

/-- Registering a vector hands out a page run at most.

**Proof sketch.** The session goes on in its transaction, which hands out one run at most; it stays
with its field. -/
lemma Sound.spares_register (h : index.Sound) (hsession : index.session = some session)
    {id : UInt64} {raw : Bytes} {level : Option Nat}
    (hfits : (Operation.register id raw level).Fits index) :
    index.Spares session.field.name 1 (index.register session id raw level) ∧
      (index.register session id raw level).Attends session.field.name := by
  obtain ⟨hwriter, _⟩ := h.session session hsession
  have hcontinues := session.continues_registerAtLevel id raw level (hfits.1 session hsession)
  obtain ⟨hextends, hle⟩ := hcontinues.grows
  have htxn : session.txn.Spares session.field.name 1
      (session.registerAtLevel id raw level).1.txn :=
    ⟨(h.writer _ hwriter).keeps_extends hextends _, hextends.sameEntries.base, hextends.nextPage_le,
      hle⟩
  have hfield := hcontinues.field
  rcases hresult : session.registerAtLevel id raw level with ⟨after, e | ⟨⟨⟩⟩⟩
  all_goals
    rw [hresult] at htxn hfield
    rw [Index.register, hresult]
    refine ⟨.of_writer hwriter htxn rfl rfl fun _ _ => rfl, ?_⟩
    rintro _ ⟨⟩
    exact congrArg FieldRecord.name hfield

/-- **An operation that concerns one field** spares all others.

**Proof sketch.** One case for each operation, by the lemmas above. -/
theorem Sound.spares_step (h : index.Sound) (hon : op.On index name) (hfits : op.Fits index) :
    index.Spares name 1 (index.step op) ∧ (index.Attends name → (index.step op).Attends name) := by
  let P : Index → Prop := fun next =>
    index.Spares name 1 next ∧ (index.Attends name → next.Attends name)
  have hsame : P index := ⟨.refl name index, id⟩
  cases op with
  | begin => exact hon.elim
  | commit => exact hon.elim
  | abandon => exact hon.elim
  | create other options =>
    obtain rfl : other = name := hon
    refine whenFree_cases (P := P) hsame fun txn _ hwriter => ?_
    cases hcreate : Catalog.create txn other options with
    | error e => exact hsame
    | ok created =>
      obtain ⟨record, txn'⟩ := created
      have hkeeps := (h.writer txn hwriter).keeps_create hcreate
      obtain ⟨_, _, _, _, rfl⟩ := Snapshot.Sound.create_eq_ok_iff.mp hcreate
      exact ⟨.of_writer hwriter ⟨hkeeps, rfl, UInt64.le_refl _, Nat.le_add_right _ _⟩ rfl rfl
        fun _ _ => rfl, id⟩
  | start config other =>
    obtain rfl : other = name := hon
    refine whenFree_cases (P := P) hsame fun txn _ hwriter => ?_
    cases hstart : Registration.start config txn other with
    | error e => exact hsame
    | ok session =>
      refine ⟨.of_store_eq other rfl rfl rfl, ?_⟩
      rintro _ _ ⟨⟩
      obtain ⟨_, _, _, hfind, _⟩ := Registration.exists_of_start hstart
      exact ((h.writer txn hwriter).valid hfind).1
  | reseed seed =>
    refine whenOpen_cases (P := P) hsame fun session hsession => ?_
    rw [Registration.withSeed]
    generalize Generator.ofSeed seed = generator
    refine ⟨.of_store_eq name rfl rfl rfl, ?_⟩
    rintro hattends _ ⟨⟩
    exact hattends session hsession
  | register id raw level =>
    refine whenOpen_cases (P := P) hsame fun session hsession => ?_
    obtain rfl := hon session hsession
    obtain ⟨hspares, hattends⟩ := h.spares_register hsession hfits
    exact ⟨hspares, fun _ => hattends⟩
  | finish =>
    refine whenOpen_cases (P := P) hsame fun session hsession => ?_
    obtain rfl := hon session hsession
    refine ⟨h.spares_finish hsession, fun _ => attends_of_closed ?_ _⟩
    unfold Index.finish
    split <;> rfl
  | discard =>
    refine whenOpen_cases (P := P) hsame fun session hsession => ?_
    obtain ⟨hwriter, _⟩ := h.session session hsession
    have htxn := (WriteTransaction.Spares.refl name session.txn).mono (Nat.zero_le 1)
    exact ⟨.of_writer hwriter htxn rfl rfl fun _ _ => rfl, fun _ => attends_of_closed rfl name⟩

/-! ## Operations one after the other -/

/-- **Operations are within the range of the machine integers**, each in its turn. -/
def Affords : Index → List Operation → Prop
  | _, [] => True
  | index, op :: ops => op.Fits index ∧ (index.step op).Affords ops

/-- Operations, and then further ones, are within range if both are in their turn. -/
lemma affords_append {ops' : List Operation} :
    index.Affords (ops ++ ops') ↔ index.Affords ops ∧ (ops.foldl step index).Affords ops' := by
  induction ops generalizing index with
  | nil => simp [Affords]
  | cons op ops ih => simp only [List.cons_append, Affords, ih, List.foldl_cons, and_assoc]

/-- Operations within range keep an index sound. -/
lemma Sound.foldl (h : index.Sound) (haffords : index.Affords ops) :
    (ops.foldl Index.step index).Sound := by
  induction ops generalizing index with
  | nil => exact h
  | cons op ops ih => exact ih (h.step haffords.1) haffords.2

/-- **Operations that concern one field** spare all others. -/
theorem Sound.spares_foldl (h : index.Sound) (hattends : index.Attends name)
    (htouches : ∀ op ∈ ops, op.Touches name) (haffords : index.Affords ops) :
    index.Spares name ops.length (ops.foldl Index.step index) := by
  induction ops generalizing index with
  | nil => exact .refl name index
  | cons op ops ih =>
    obtain ⟨hop, hops⟩ := List.forall_mem_cons.mp htouches
    obtain ⟨hspares, hnext⟩ := h.spares_step (hop.on hattends) haffords.1
    rw [List.length_cons, Nat.add_comm]
    exact hspares.trans (ih (h.step haffords.1) (hnext hattends) hops haffords.2)

end Index

end Proximity

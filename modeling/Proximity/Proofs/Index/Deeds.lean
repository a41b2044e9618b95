import Proximity.Proofs.Index.Sparing
import Proximity.Proofs.Registration.Atomicity

set_option relaxedAutoImplicit false
set_option autoImplicit false

/-!
# Deeds and answers

A caller opens, commits and abandons write transactions, creates fields in them, and has sessions on
fields. While a session is open, its transaction serves nothing else, so that a session is one deed
from its opening to its end. The index answers each operation of a deed, and the answers to some
deeds make up a transcript.

## Main definitions

* `Proximity.Deed`, `Proximity.Deed.operations` — what a caller does, and the operations it takes.
* `Proximity.Deed.concerns` — whether a deed creates a field, or is a session on it.
* `Proximity.Deed.without` — some deeds without those on a field.
* `Proximity.Answer`, `Proximity.Index.answer` — what is answered to an operation.
* `Proximity.Operation.Idles` — the operations that are ignored where they stand.
* `Proximity.Index.transcript`, `Proximity.Index.after` — the answers to some deeds, and the state
  that they lead to.
* `Proximity.Index.Modest` — an index that has seen no more than some number of operations.

## Main results

* `Proximity.Index.session_foldl_operations` — no session is open between deeds.
* `Proximity.Index.affords_of_length` — so many operations as there are page runs are within the
  range of the machine integers.
-/

namespace Proximity

/-! ## Deeds -/

/-- What a caller can ask of an open session. -/
inductive Act
  /-- To draw levels from another seed. -/
  | reseed (seed : UInt64)
  /-- To register a vector, at a level that is given or else drawn. -/
  | register (id : UInt64) (raw : Bytes) (level : Option Nat)

/-- What a caller can do with an index. -/
inductive Deed
  /-- To open the write transaction. -/
  | begin
  /-- To create a field. -/
  | create (name : String) (options : FieldOptions)
  /-- To have a session on a field, from its opening to its end. -/
  | session (config : Config) (name : String) (acts : List Act) (ending : Registration.Ending)
  /-- To commit the write transaction. -/
  | commit
  /-- To abandon the write transaction. -/
  | abandon

/-- The operation that an act is. -/
def Act.operation : Act → Operation
  | .reseed seed => .reseed seed
  | .register id raw level => .register id raw level

/-- The operation that ends a session. -/
def Registration.Ending.operation : Registration.Ending → Operation
  | .commit => .finish
  | .rollback | .drop => .discard

/-- The operations that a deed takes. -/
def Deed.operations : Deed → List Operation
  | .begin => [.begin]
  | .create name options => [.create name options]
  | .session config name acts ending =>
    .start config name :: acts.map Act.operation ++ [ending.operation]
  | .commit => [.commit]
  | .abandon => [.abandon]

/-- Whether a deed is one on a field: it creates the field, or it is a session on it. -/
def Deed.concerns (name : String) : Deed → Bool
  | .create other _ => other == name
  | .session _ other _ _ => other == name
  | .begin | .commit | .abandon => false

/-- The deeds that remain if those on a field are left out. -/
def Deed.without (name : String) (deeds : List Deed) : List Deed :=
  deeds.filter fun deed => !deed.concerns name

variable {name : String} {deed : Deed} {op : Operation} {ops : List Operation}

/-- The operations of a deed that concerns a field touch this field.

**Proof sketch.** One case for each deed; the operations of a session are its opening, its acts and
its ending. -/
lemma Deed.touches_of_concerns (h : deed.concerns name = true) (hop : op ∈ deed.operations) :
    op.Touches name := by
  cases deed with
  | begin => cases h
  | commit => cases h
  | abandon => cases h
  | create other options =>
    obtain rfl : op = .create other options := List.mem_singleton.mp hop
    exact eq_of_beq h
  | session config other acts ending =>
    rcases List.mem_append.mp hop with hop | hop
    · rcases List.mem_cons.mp hop with rfl | hop
      · exact eq_of_beq h
      · obtain ⟨act, _, rfl⟩ := List.mem_map.mp hop
        cases act <;> trivial
    · obtain rfl := List.mem_singleton.mp hop
      cases ending <;> trivial

/-! ## Answers -/

/-- What an index answers to an operation. -/
inductive Answer
  /-- There is nothing to answer, or nothing that could answer. -/
  | silent
  /-- The version that a new write transaction reads from. -/
  | begun (result : Except StoreError Nat)
  /-- The definition of a new field. -/
  | created (result : Except IndexError FieldRecord)
  /-- Whether a session has been opened. -/
  | started (result : Except IndexError Unit)
  /-- Whether a vector has been registered. -/
  | registered (result : Except IndexError Unit)
  /-- The number of vectors that a session has committed. -/
  | finished (result : Except IndexError Nat)
  /-- The version that has been committed. -/
  | committed (version : Nat)

namespace Index

/-- The write transaction, if there is one that no session has. -/
def free (index : Index) : Option WriteTransaction :=
  match index.session with
  | some _ => none
  | none => index.store.writer

/-- The answer to an operation. -/
def answer (index : Index) : Operation → Answer
  | .begin => .begun (index.store.beginWrite.map fun _ => index.store.version)
  | .create name options =>
    match index.free with
    | some txn => .created ((Catalog.create txn name options).map Prod.fst)
    | none => .silent
  | .start config name =>
    match index.free with
    | some txn => .started ((Registration.start config txn name).map fun _ => ())
    | none => .silent
  | .register id raw level =>
    match index.session with
    | some session => .registered (session.registerAtLevel id raw level).2
    | none => .silent
  | .finish =>
    match index.session with
    | some session => .finished (session.commit.map Prod.fst)
    | none => .silent
  | .commit =>
    match index.free with
    | some txn => .committed txn.commit.version
    | none => .silent
  | .reseed _ | .discard | .abandon => .silent

/-- The answers to some operations, one after the other. -/
def answers : Index → List Operation → List Answer
  | _, [] => []
  | index, op :: ops => index.answer op :: (index.step op).answers ops

/-- The state after some deeds. -/
def after (index : Index) (deeds : List Deed) : Index :=
  (deeds.flatMap Deed.operations).foldl step index

/-- The answers to some deeds, one after the other. -/
def transcript : Index → List Deed → List (Deed × List Answer)
  | _, [] => []
  | index, deed :: deeds =>
    (deed, index.answers deed.operations) :: (deed.operations.foldl step index).transcript deeds

variable {index : Index} {txn : WriteTransaction}

/-- The write transaction is free if no session is open on it. -/
lemma free_eq_some_iff :
    index.free = some txn ↔ index.session = none ∧ index.store.writer = some txn := by
  unfold free
  cases index.session <;> simp

/-- Nothing happens while the write transaction is not free. -/
lemma whenFree_of_none (h : index.free = none) (next : WriteTransaction → Index) :
    index.whenFree next = index := by
  unfold free at h
  unfold whenFree
  cases hsession : index.session with
  | some session => rfl
  | none =>
    simp only [hsession] at h
    rw [h]

/-- What happens with a free write transaction. -/
lemma whenFree_of_some (h : index.free = some txn) (next : WriteTransaction → Index) :
    index.whenFree next = next txn := by
  obtain ⟨hsession, hwriter⟩ := free_eq_some_iff.mp h
  rw [whenFree, hsession, hwriter]

end Index

/-! ## Operations that are ignored -/

/-- An operation is ignored where it stands: it needs a session, and none is open, or it needs the
write transaction, and that is not free. -/
def Operation.Idles (index : Index) : Operation → Prop
  | .create .. | .start .. => index.free = none
  | .reseed _ | .register .. | .finish | .discard => index.session = none
  | .begin | .commit | .abandon => False

namespace Index

variable {index : Index}

/-- An idle operation leaves the index as it is. -/
lemma step_of_idles (h : op.Idles index) : index.step op = index := by
  cases op with
  | create name options => exact whenFree_of_none h _
  | start config name => exact whenFree_of_none h _
  | begin => exact h.elim
  | commit => exact h.elim
  | abandon => exact h.elim
  | _ =>
    have hsession : index.session = none := h
    simp only [step, whenOpen, hsession]

/-- An idle operation has no answer. -/
lemma answer_of_idles (h : op.Idles index) : index.answer op = .silent := by
  cases op with
  | create name options =>
    have hfree : index.free = none := h
    simp only [answer, hfree]
  | start config name =>
    have hfree : index.free = none := h
    simp only [answer, hfree]
  | begin => exact h.elim
  | commit => exact h.elim
  | abandon => exact h.elim
  | _ =>
    have hsession : index.session = none := h
    simp only [answer, hsession]

/-! ## Between deeds -/

/-- A deed, and then the others. -/
lemma after_cons (index : Index) (deed : Deed) (deeds : List Deed) :
    index.after (deed :: deeds) = (deed.operations.foldl step index).after deeds := by
  rw [after, List.flatMap_cons, List.foldl_append, after]

/-- Where no session is open, only the operation that opens one changes that.

**Proof sketch.** One case for each operation. -/
lemma session_step_eq_none (h : index.session = none)
    (hop : ∀ config name, op ≠ .start config name) : (index.step op).session = none := by
  let P : Index → Prop := fun next => next.session = none
  cases op with
  | begin =>
    unfold step
    cases index.store.beginWrite <;> exact h
  | create name options =>
    refine whenFree_cases (P := P) h fun txn _ _ => ?_
    cases Catalog.create txn name options <;> exact h
  | start config name => exact absurd rfl (hop config name)
  | commit =>
    refine whenFree_cases (P := P) h fun _ _ _ => ?_
    cases index.store.commit? <;> exact h
  | abandon => exact whenFree_cases (P := P) h fun _ _ _ => h
  | _ =>
    refine (congrArg Index.session (step_of_idles ?_)).trans h
    exact h

/-- A session that ends is over. -/
lemma session_step_ending (index : Index) (ending : Registration.Ending) :
    (index.step ending.operation).session = none := by
  cases hsession : index.session with
  | none =>
    refine session_step_eq_none hsession fun config name => ?_
    cases ending <;> simp [Registration.Ending.operation]
  | some session =>
    cases ending with
    | commit =>
      simp only [Registration.Ending.operation, step, whenOpen, hsession, finish]
      split <;> rfl
    | rollback => simp only [Registration.Ending.operation, step, whenOpen, hsession]
    | drop => simp only [Registration.Ending.operation, step, whenOpen, hsession]

/-- **No session is open between deeds.**

**Proof sketch.** A deed that opens a session ends it as well, and the other deeds are single
operations that open none. -/
theorem session_foldl_operations (h : index.session = none) (deed : Deed) :
    (deed.operations.foldl step index).session = none := by
  have hsingle : ∀ op : Operation, (∀ config name, op ≠ .start config name) →
      ([op].foldl step index).session = none := fun _ hop => session_step_eq_none h hop
  cases deed with
  | begin => exact hsingle .begin nofun
  | create name options => exact hsingle (.create name options) nofun
  | session config name acts ending =>
    rw [Deed.operations, List.foldl_append]
    exact session_step_ending _ ending
  | commit => exact hsingle .commit nofun
  | abandon => exact hsingle .abandon nofun

/-! ## The range of the machine integers -/

/-- **An index has seen no more than some number of operations**: it has not handed out more page
runs, nor committed more often. -/
structure Modest (count : Nat) (index : Index) : Prop where
  nextPage_le : index.store.committed.nextPage.toNat ≤ count * UInt32.size
  version_le : index.store.committed.version ≤ count
  writer : ∀ txn, index.store.writer = some txn →
    txn.nextPage.toNat ≤ count * UInt32.size ∧ txn.version ≤ count

/-- An index without fields has seen no operation. -/
lemma modest_empty : empty.Modest 0 where
  nextPage_le := Nat.le_refl _
  version_le := Nat.le_refl _
  writer txn h := by cases h

end Index

/-- The parts of an operation that do not depend on the index are within the range of the machine
integers. -/
def Operation.InRange : Operation → Prop
  | .create _ options => options.Fits
  | .register _ _ level => ∀ l, level = some l → l ≤ maxLevel
  | _ => True

namespace Index

variable {index : Index} {count : Nat}

namespace Modest

/-- A write transaction that has gone on in a field is modest again.

**Proof sketch.** The transaction has handed out one run more at most, and nothing has been
committed. -/
lemma of_spares {next : Index} (h : index.Modest count) (hspares : index.Spares name 1 next) :
    next.Modest (count + 1) where
  nextPage_le := by
    rw [hspares.committed]
    exact h.nextPage_le.trans (Nat.mul_le_mul_right _ (Nat.le_succ count))
  version_le := by
    rw [hspares.committed]
    exact h.version_le.trans (Nat.le_succ count)
  writer := by
    intro txn hwriter
    obtain ⟨before, hbefore, htxn⟩ := hspares.exists_writer hwriter
    obtain ⟨hpages, hversion⟩ := h.writer before hbefore
    have hle := htxn.nextPage_le
    refine ⟨?_, ?_⟩
    · rw [Nat.succ_mul]
      omega
    · rw [WriteTransaction.version, htxn.base]
      exact hversion.trans (Nat.le_succ count)

/-- An operation that concerns a field is one more of them. -/
lemma step_on (h : index.Modest count) (hsound : index.Sound) (hon : op.On index name)
    (hfits : op.Fits index) : (index.step op).Modest (count + 1) :=
  h.of_spares (hsound.spares_step hon hfits).1

/-- **An operation** is one more of them.

**Proof sketch.** A commit brings the next version, and any other operation goes on in one field and
hands out one run at most. -/
theorem step (h : index.Modest count) (hsound : index.Sound) (hfits : op.Fits index) :
    (index.step op).Modest (count + 1) := by
  obtain ⟨attended, hattends⟩ := index.exists_attends
  have hsame : index.Modest (count + 1) := h.of_spares (.refl "" index)
  cases op with
  | begin =>
    unfold Index.step Store.beginWrite
    cases hwriter : index.store.writer with
    | some txn => exact hsame
    | none =>
      refine ⟨hsame.nextPage_le, hsame.version_le, ?_⟩
      rintro _ ⟨⟩
      exact ⟨hsame.nextPage_le, hsame.version_le⟩
  | commit =>
    refine whenFree_cases (P := fun next => next.Modest (count + 1)) hsame fun txn _ hwriter => ?_
    rw [Store.commit?, hwriter, Option.map_some]
    obtain ⟨hpages, hversion⟩ := h.writer txn hwriter
    exact ⟨hpages.trans (Nat.mul_le_mul_right _ (Nat.le_succ count)), Nat.succ_le_succ hversion,
      fun _ hsome => by cases hsome⟩
  | abandon =>
    exact whenFree_cases (P := fun next => next.Modest (count + 1)) hsame fun _ _ _ =>
      ⟨hsame.nextPage_le, hsame.version_le, fun _ hsome => by cases hsome⟩
  | create name options => exact h.step_on hsound (rfl : name = name) hfits
  | start config name => exact h.step_on hsound (rfl : name = name) hfits
  | reseed seed => exact h.step_on hsound hattends hfits
  | register id raw level => exact h.step_on hsound hattends hfits
  | finish => exact h.step_on hsound hattends hfits
  | discard => exact h.step_on hsound hattends hfits

/-- An operation fits after fewer operations than there are page runs. -/
lemma fits (h : index.Modest count) (hsound : index.Sound) (hcount : count + 1 < UInt32.size)
    (hrange : op.InRange) : op.Fits index := by
  have hpages : count * UInt32.size + UInt32.size ≤ UInt64.size := by
    rw [← Nat.succ_mul]
    exact Nat.mul_le_mul_right UInt32.size hcount.le
  cases op with
  | create name options =>
    refine ⟨hrange, fun txn hwriter => Nat.lt_of_le_of_lt (h.writer txn hwriter).2 ?_⟩
    exact Nat.lt_trans (Nat.lt_of_succ_lt hcount) (by decide)
  | register id raw level =>
    refine ⟨fun session hsession => ?_, hrange⟩
    have hle := (h.writer _ (hsound.session session hsession).1).1
    omega
  | _ => trivial

end Modest

/-- **Fewer operations than there are page runs** are within the range of the machine integers. -/
theorem affords_of_length (h : index.Modest count) (hsound : index.Sound)
    (hcount : count + ops.length < UInt32.size) (hrange : ∀ op ∈ ops, op.InRange) :
    index.Affords ops := by
  induction ops generalizing index count with
  | nil => trivial
  | cons op ops ih =>
    obtain ⟨hop, hops⟩ := List.forall_mem_cons.mp hrange
    rw [List.length_cons] at hcount
    have hfits := h.fits hsound (by omega) hop
    exact ⟨hfits, ih (h.step hsound hfits) (hsound.step hfits) (by omega) hops⟩

end Index

end Proximity

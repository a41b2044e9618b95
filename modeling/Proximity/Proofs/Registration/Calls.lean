import Proximity.Proofs.Embedding
import Proximity.Proofs.Registration
import Proximity.Proofs.Registration.Effects

set_option relaxedAutoImplicit false
set_option autoImplicit false

/-!
# Calls of a session

A vector can be given to a session in four forms. Whatever the records of the field are, there are
four ways in which a call can go. Once an insertion has failed on its way, the session stays as it
is: it refuses everything that it can read.

## Main definitions

* `Proximity.Registration.Call` — what a caller can ask of a session.
* `Proximity.Registration.perform`, `Proximity.Registration.performAll` — what the session does.
* `Proximity.Registration.Outcome` — how a call can go.
* `Proximity.Registration.Fails` — an insertion that fails on its way.
* `Proximity.Registration.InRange` — calls in which no page number overflows.

## Main results

* `Proximity.Registration.outcome_perform` — every call goes in one of four ways.
* `Proximity.Registration.Fails.performAll` — a session that has failed refuses everything.
* `Proximity.Registration.failure_eq_none_of_performAll` — a session fails with an insertion only.
* `Proximity.Registration.extends_performAll` — any calls hand out page runs at most.
-/

namespace Proximity

namespace Registration

/-! ## Calls -/

/-- What a caller can ask of a session: to register a vector, given in one of four forms. -/
inductive Call
  /-- Bytes in the source precision of the field. -/
  | raw (id : UInt64) (bytes : Bytes)
  /-- Single precision numbers. -/
  | numbers (id : UInt64) (numbers : List Single)
  /-- Bytes as base64 text. -/
  | base64 (id : UInt64) (text : String)
  /-- A text, with the embedding that turns it into bytes. -/
  | text (embed : String → Except IndexError Bytes) (id : UInt64) (text : String)

/-- The bytes that a call gives, or why it gives none. -/
def Call.given : Call → Except IndexError Bytes
  | .raw _ bytes => .ok bytes
  | .numbers _ list => .ok (Single.bytesOfList list)
  | .base64 _ given => readBase64 given
  | .text embed _ given => embed given

/-- The name under which a call registers. -/
def Call.id : Call → UInt64
  | .raw id _ => id
  | .numbers id _ => id
  | .base64 id _ => id
  | .text _ id _ => id

/-- The session after a call, and the answer to it. -/
def perform (session : Registration) : Call → Registration × Except IndexError Unit
  | .raw id bytes => session.register id bytes
  | .numbers id numbers => session.registerNumbers id numbers
  | .base64 id text => session.registerBase64 id text
  | .text embed id text => session.registerText embed id text

/-- The session after some calls, and the answers to them. -/
def performAll (session : Registration) :
    List Call → Registration × List (Except IndexError Unit)
  | [] => (session, [])
  | call :: calls =>
    let (next, answer) := session.perform call
    let (last, answers) := next.performAll calls
    (last, answer :: answers)

variable {session next : Registration} {call : Call} {calls : List Call} {id : UInt64}
  {bytes : Bytes} {e : IndexError}

/-- A call reads what it is given, and registers it if it can be read. -/
lemma perform_eq (session : Registration) (call : Call) :
    session.perform call = session.registerRead call.id call.given := by
  cases call <;> rfl

/-- A call, and then the others. -/
lemma performAll_cons (session : Registration) (call : Call) (calls : List Call) :
    session.performAll (call :: calls) =
      (((session.perform call).1.performAll calls).1,
        (session.perform call).2 :: ((session.perform call).1.performAll calls).2) := rfl

/-- Calls, and then further ones. -/
lemma performAll_append (session : Registration) (calls more : List Call) :
    session.performAll (calls ++ more) =
      (((session.performAll calls).1.performAll more).1,
        (session.performAll calls).2 ++ ((session.performAll calls).1.performAll more).2) := by
  induction calls generalizing session with
  | nil => rfl
  | cons call calls ih =>
    rw [List.cons_append, performAll_cons, performAll_cons, ih]
    rfl

/-! ## What a call can do -/

/-- **What a call can do**, and the answer to it: what it gives cannot be read, it is refused, it is
inserted, or its insertion fails. -/
inductive Outcome (session : Registration) (call : Call) :
    Registration × Except IndexError Unit → Prop
  /-- What the call gives cannot be read. -/
  | unread {e : IndexError} (hgiven : call.given = .error e) :
      Outcome session call (session, .error e)
  /-- The vector is refused. -/
  | refused {raw : Bytes} {e : IndexError} (hgiven : call.given = .ok raw)
      (hcheck : session.check call.id raw = .error e) : Outcome session call (session, .error e)
  /-- The vector is inserted. -/
  | inserted {raw stored : Bytes} {generator : Generator} {level : Nat} {txn : WriteTransaction}
      {graph : FieldGraph} (hgiven : call.given = .ok raw)
      (hcheck : session.check call.id raw = .ok stored)
      (hinsert : session.insert ⟨call.id⟩ raw.length stored level = (txn, .ok graph)) :
      Outcome session call
        ({ session with txn, graph, generator, registered := session.registered + 1 }, .ok ())
  /-- The insertion of the vector fails. -/
  | failed {raw stored : Bytes} {generator : Generator} {level : Nat} {txn : WriteTransaction}
      {e : IndexError} (hgiven : call.given = .ok raw)
      (hcheck : session.check call.id raw = .ok stored)
      (hinsert : session.insert ⟨call.id⟩ raw.length stored level = (txn, .error e)) :
      Outcome session call ({ session with txn, generator, failure := some (call.id, e.message) },
        .error (.registrationFailed call.id e))

/-- A call ends in one of the ways that there are.

**Proof sketch.** By the three steps of a call: reading, checking and inserting. -/
theorem outcome_perform (session : Registration) (call : Call) :
    Outcome session call (session.perform call) := by
  rw [perform_eq]
  unfold registerRead
  cases hgiven : call.given with
  | error e => exact .unread hgiven
  | ok raw =>
    simp only [register]
    cases hcheck : session.check call.id raw with
    | error e => exact .refused hgiven hcheck
    | ok stored =>
      simp only [drawLevel]
      rcases session.generator.uniform with ⟨uniform, generator⟩
      simp only [registerAt]
      generalize levelOf (levelFactor session.field.options.edges) uniform = level
      cases hinsert : session.insert ⟨call.id⟩ raw.length stored level with
      | mk txn result =>
        have hsame : ({ session with generator } : Registration).insert ⟨call.id⟩ raw.length stored
            level = (txn, result) := hinsert
        rw [hsame]
        cases result with
        | ok graph => exact .inserted hgiven hcheck hinsert
        | error e => exact .failed hgiven hcheck hinsert

/-! ## Failures -/

/-- A session that has failed refuses everything. -/
lemma check_of_failure {failed : UInt64 × String} (h : session.failure = some failed)
    (id : UInt64) (raw : Bytes) :
    session.check id raw = .error (.registrationAborted failed.1 failed.2) := by
  rw [check, h]
  rfl

/-- The answer of a session that has failed to a call: why it cannot be read, or else the
failure. -/
def Call.refusal (failed : UInt64 × String) (call : Call) : Except IndexError Unit :=
  match call.given with
  | .error e => .error e
  | .ok _ => .error (.registrationAborted failed.1 failed.2)

/-- A session that has failed answers with its failure, and stays as it is. -/
lemma perform_of_failure {failed : UInt64 × String} (h : session.failure = some failed)
    (call : Call) : session.perform call = (session, call.refusal failed) := by
  rw [perform_eq]
  unfold registerRead Call.refusal
  cases call.given with
  | error e => rfl
  | ok raw => simp only [register, check_of_failure h]

/-- **A session that has failed refuses everything** that it can read, and stays as it is. -/
theorem performAll_of_failure {failed : UInt64 × String} (h : session.failure = some failed)
    (calls : List Call) :
    session.performAll calls = (session, calls.map (Call.refusal failed)) := by
  induction calls with
  | nil => rfl
  | cons call calls ih =>
    rw [performAll_cons, perform_of_failure h, ih]
    rfl

/-- The faults of an encoding are faults of the vector. -/
lemma encodeVector_ne_failed {source destination : Precision} {raw : Bytes}
    (h : encodeVector source destination raw = .error e) (x : UInt64) (cause : IndexError) :
    e ≠ .registrationFailed x cause := by
  rintro rfl
  rcases Except.bind_eq_error_iff.mp h with hcheck | ⟨_, _, hrest⟩
  · obtain ⟨_, hreason⟩ := Encoding.check_eq_error hcheck
    cases hreason
  · cases source <;> cases destination <;> cases hrest

/-- No check answers that an insertion has failed.

**Proof sketch.** The checks are made one after the other, and none of their errors is about an
insertion. -/
lemma check_ne_failed (h : session.check id bytes = .error e) (x : UInt64) (cause : IndexError) :
    e ≠ .registrationFailed x cause := by
  rintro rfl
  cases hfailure : session.failure with
  | some failed =>
    rw [check_of_failure hfailure] at h
    cases h
  | none =>
    simp only [check, hfailure, Except.throw_eq_error] at h
    by_cases haccepted : VectorId.accepted id = true
    swap
    · simp [haccepted] at h
    simp only [haccepted, if_true] at h
    rcases Except.bind_eq_error_iff.mp h with hencode | ⟨encoded, _, h⟩
    · exact encodeVector_ne_failed hencode x cause rfl
    rcases Except.bind_eq_error_iff.mp h with hlengths | ⟨_, _, h⟩
    · obtain ⟨_, _, hmismatch⟩ := checkLengths_eq_error hlengths
      cases hmismatch
    split at h
    · cases h
    · cases h

/-- **An answer that an insertion has failed** is about the vector of the call, and the session has
failed with it.

**Proof sketch.** By how a call can end; only an insertion that fails answers so. -/
theorem failure_of_perform {x : UInt64} (hread : ∃ raw, call.given = .ok raw)
    (h : (session.perform call).2 = .error (.registrationFailed x e)) :
    x = call.id ∧ (session.perform call).1.failure = some (x, e.message) := by
  obtain ⟨raw, hraw⟩ := hread
  have houtcome := session.outcome_perform call
  generalize session.perform call = result at *
  cases houtcome with
  | unread hgiven =>
    rw [hraw] at hgiven
    cases hgiven
  | refused _ hcheck => exact absurd (Except.error.inj h) (check_ne_failed hcheck x e)
  | inserted => cases h
  | failed =>
    obtain ⟨rfl, rfl⟩ := IndexError.registrationFailed.inj (Except.error.inj h)
    exact ⟨rfl, rfl⟩

/-- A session that has not failed, and does not answer that an insertion has, has not failed. -/
lemma failure_eq_none_of_perform (h : session.failure = none)
    (hanswer : (∃ raw, call.given = .ok raw) → ∀ x e,
      (session.perform call).2 ≠ .error (.registrationFailed x e)) :
    (session.perform call).1.failure = none := by
  have houtcome := session.outcome_perform call
  generalize session.perform call = result at *
  cases houtcome with
  | unread => exact h
  | refused => exact h
  | inserted => exact h
  | failed hgiven => exact absurd rfl (hanswer ⟨_, hgiven⟩ _ _)

/-! ## Any number of calls -/

/-- **The insertion of one of some calls fails**: what the call gives can be read, and the answer to
it is that the insertion has failed. -/
structure Fails (session : Registration) (calls before : List Call) (call : Call)
    (after : List Call) (x : UInt64) (e : IndexError) : Prop where
  calls_eq : calls = before ++ call :: after
  given : ∃ raw, call.given = .ok raw
  answer : ((session.performAll before).1.perform call).2 = .error (.registrationFailed x e)

/-- **After an insertion has failed** the session refuses everything that it can read. -/
theorem Fails.performAll {before after : List Call} {x : UInt64} {e : IndexError}
    (h : session.Fails calls before call after x e) :
    x = call.id ∧ (session.performAll calls).1.failure = some (x, e.message) ∧
      (session.performAll calls).2 = (session.performAll before).2 ++
        .error (.registrationFailed x e) :: after.map (Call.refusal (x, e.message)) := by
  obtain ⟨hid, hfailure⟩ := failure_of_perform h.given h.answer
  rw [h.calls_eq, performAll_append, performAll_cons, performAll_of_failure hfailure, h.answer]
  exact ⟨hid, hfailure, rfl⟩

/-- Unless an insertion fails, the session does not fail. -/
theorem failure_eq_none_of_performAll (hfailure : session.failure = none)
    (h : ∀ before call after x e, ¬session.Fails calls before call after x e) :
    (session.performAll calls).1.failure = none := by
  induction calls generalizing session with
  | nil => exact hfailure
  | cons call calls ih =>
    have hnext : (session.perform call).1.failure = none :=
      failure_eq_none_of_perform hfailure fun hgiven x e hanswer =>
        h [] call calls x e ⟨rfl, hgiven, hanswer⟩
    refine ih hnext fun before other after x e hfails => ?_
    exact h (call :: before) other after x e
      ⟨congrArg (call :: ·) hfails.calls_eq, hfails.given, hfails.answer⟩

/-- A call goes on from the session. -/
lemma continues_perform (session : Registration) (call : Call)
    (hpages : session.txn.nextPage.toNat + UInt32.size ≤ UInt64.size) :
    session.Continues 1 (session.perform call).1 := by
  rw [perform_eq]
  unfold registerRead
  cases call.given with
  | error e => exact (Continues.refl session).mono (Nat.zero_le 1)
  | ok raw => exact session.continues_register call.id raw hpages

/-- **Page numbers stay in range** in some calls: none of them makes a page number overflow. -/
def InRange (session : Registration) (calls : List Call) : Prop :=
  ∀ before call after, calls = before ++ call :: after →
    (session.performAll before).1.txn.nextPage ≤
      ((session.performAll before).1.perform call).1.txn.nextPage

/-- The page numbers suffice for the first call. -/
lemma InRange.head (h : session.InRange (call :: calls)) :
    session.txn.nextPage ≤ (session.perform call).1.txn.nextPage :=
  h [] call calls rfl

/-- The page numbers suffice for the calls after the first one. -/
lemma InRange.tail (h : session.InRange (call :: calls)) :
    (session.perform call).1.InRange calls := by
  intro before other after heq
  exact h (call :: before) other after (congrArg (call :: ·) heq)

/-- Page numbers stay in range if they suffice for one run in each call.

**Proof sketch.** Induction on the calls; each of them hands out one run at most. -/
lemma inRange_of_le (hpages : session.txn.nextPage.toNat + calls.length * UInt32.size ≤
    UInt64.size) : session.InRange calls := by
  induction calls generalizing session with
  | nil =>
    intro before call after heq
    cases before <;> cases heq
  | cons first calls ih =>
    rw [List.length_cons, Nat.add_comm calls.length] at hpages
    have hfirst :=
      (session.continues_perform first (WriteTransaction.suffices_one hpages)).grows
    intro before call after heq
    cases before with
    | nil =>
      rw [← (List.cons.inj heq).1]
      exact hfirst.extends_txn.nextPage_le
    | cons other before =>
      obtain ⟨rfl, hrest⟩ := List.cons.inj heq
      exact ih (hfirst.suffices_more hpages) before call after hrest

/-- A call hands out runs at most, as long as page numbers stay in range. -/
lemma extends_perform (hle : session.txn.nextPage ≤ (session.perform call).1.txn.nextPage) :
    session.txn.Extends (session.perform call).1.txn := by
  have houtcome := session.outcome_perform call
  generalize session.perform call = result at *
  cases houtcome with
  | unread => exact .refl session.txn
  | refused => exact .refl session.txn
  | inserted _ _ hinsert => exact extends_of_insert hinsert hle
  | failed _ _ hinsert => exact extends_of_insert hinsert hle

/-- **Any calls hand out runs at most**, as long as page numbers stay in range. -/
theorem extends_performAll (h : session.InRange calls) :
    session.txn.Extends (session.performAll calls).1.txn := by
  induction calls generalizing session with
  | nil => exact .refl session.txn
  | cons call calls ih => exact (extends_perform h.head).trans (ih h.tail)

/-- The number of vectors registered is the number of calls that have been answered so. -/
lemma registered_performAll (session : Registration) (calls : List Call) :
    (session.performAll calls).1.registered =
      session.registered + (session.performAll calls).2.countP Except.isOk := by
  induction calls generalizing session with
  | nil => rfl
  | cons call calls ih =>
    rw [performAll_cons, List.countP_cons, ih]
    have houtcome := session.outcome_perform call
    generalize session.perform call = result at *
    cases houtcome with
    | unread => rfl
    | refused => rfl
    | inserted =>
      simp only [Except.isOk, Except.toBool, if_true]
      omega
    | failed => rfl

end Registration

end Proximity

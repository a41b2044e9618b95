import Proximity.Proofs.Index.Parallel

set_option relaxedAutoImplicit false
set_option autoImplicit false

/-!
# Fields do not interfere

All fields of an index share one key space and one sequence of page numbers. What is done with one
of them is nevertheless invisible through the others: if all deeds on a field are left out, then all
other deeds are answered as before, and the other fields look the same to every caller.

## Main definitions

* `Proximity.Answer.Agrees` — two answers that differ at most in why an insertion failed.
* `Proximity.Index.Concurs` — two indexes that answer an operation on a field alike.
* `Proximity.Deed.entangled` — deeds on two fields with similar names.

## Main results

* `Proximity.Index.Parallel.concurs` — an operation on another field is answered alike.
* `Proximity.Index.Parallel.transcript` — so are the deeds on other fields.
* `Proximity.Index.noninterference` — leaving a field out changes nothing for the others.

## Design

The run without the field is compared with the whole run step by step. The deeds that are left out
change the whole run only, and there only the one field and the next page number. A page number can
become visible in the wording of a failure only, where a vector is too long for any page run.
-/

namespace Proximity

variable {apart name : String}

/-! ## Answers -/

/-- **Two answers agree**: they are equal, or both say that the same vector could not be inserted,
which happens to vectors that are too long only. -/
inductive Answer.Agrees (long : Prop) : Answer → Answer → Prop
  /-- The answers are equal. -/
  | same (answer : Answer) : Agrees long answer answer
  /-- The insertion fails. -/
  | failed (hlong : long) (id : UInt64) (cause cause' : IndexError) :
    Agrees long (.registered (.error (.registrationFailed id cause)))
      (.registered (.error (.registrationFailed id cause')))
  /-- The insertion has failed, and another vector is refused. -/
  | refused (hlong : long) (id : UInt64) (reason reason' : String) :
    Agrees long (.registered (.error (.registrationAborted id reason)))
      (.registered (.error (.registrationAborted id reason')))
  /-- The insertion has failed, and the session cannot be committed. -/
  | unfinished (hlong : long) (id : UInt64) (reason reason' : String) :
    Agrees long (.finished (.error (.registrationAborted id reason)))
      (.finished (.error (.registrationAborted id reason')))

/-- Answers that agree are equal, unless the vectors are too long. -/
lemma Answer.Agrees.eq {long : Prop} {answer answer' : Answer} (h : Agrees long answer answer')
    (hlong : ¬long) : answer' = answer := by
  cases h with
  | same => rfl
  | failed h => exact absurd h hlong
  | refused h => exact absurd h hlong
  | unfinished h => exact absurd h hlong

/-! ## Operations on a field -/

/-- A field is created in both transactions or in neither. -/
lemma Catalog.create_cases {txn txn' : WriteTransaction} (options : FieldOptions)
    (hdefinition : txn'.view.get? (RecordKey.field name).bytes =
      txn.view.get? (RecordKey.field name).bytes) (hversion : txn'.version = txn.version) :
    (∃ e, create txn name options = .error e ∧ create txn' name options = .error e) ∨
      ∃ record after after', create txn name options = .ok (record, after) ∧
        create txn' name options = .ok (record, after') := by
  rw [WriteTransaction.get?_view, WriteTransaction.get?_view] at hdefinition
  simp only [create, hdefinition, hversion]
  cases FieldName.validate name with
  | error e => exact .inl ⟨e, rfl, rfl⟩
  | ok _ =>
    cases options.validate with
    | error e => exact .inl ⟨e, rfl, rfl⟩
    | ok _ =>
      simp only [Except.ok_bind]
      split
      · exact .inl ⟨_, rfl, rfl⟩
      · exact .inr ⟨_, _, _, rfl, rfl⟩

/-- A session that has failed refuses every vector. -/
lemma Registration.registerAtLevel_of_failure {session : Registration} {failed : UInt64 × String}
    (h : session.failure = some failed) (id : UInt64) (raw : Bytes) (level : Option Nat) :
    session.registerAtLevel id raw level =
      (session, .error (.registrationAborted failed.1 failed.2)) := by
  cases level <;> simp only [registerAtLevel, register, check_of_failure h]

namespace Index

open Registration

variable {index index' : Index} {op : Operation} {ops : List Operation} {long : Prop}

/-- Registering a vector leaves the transaction of the session in the store. -/
lemma writer_register (index : Index) (session : Registration) (id : UInt64) (raw : Bytes)
    (level : Option Nat) : (index.register session id raw level).store.writer =
      some (session.registerAtLevel id raw level).1.txn := by
  unfold register
  split <;> simp [withWriter, *]

/-- A vector that a session registers is not yet one of the transaction. -/
lemma pending_register (index : Index) (session : Registration) (id : UInt64) (raw : Bytes)
    (level : Option Nat) : (index.register session id raw level).pending = index.pending := by
  unfold register
  split <;> rfl

/-- **Two indexes concur in an operation on a field**: it is answered alike, and they go on
together. -/
structure Concurs (long : Prop) (name : String) (op : Operation) (index index' : Index) : Prop where
  matchesIn : MatchesIn name (index.step op) (index'.step op)
  together : Together long name (index.step op) (index'.step op)
  answer : (index.answer op).Agrees long (index'.answer op)

/-- Registering a vector in sessions that are open. -/
lemma Concurs.of_register {session session' : Registration}
    (hsession : index.session = some session) (hsession' : index'.session = some session')
    {id : UInt64} {raw : Bytes} {level : Option Nat}
    (hmatches : MatchesIn name (index.register session id raw level)
      (index'.register session' id raw level))
    (htogether : Together long name (index.register session id raw level)
      (index'.register session' id raw level))
    (hanswer : Answer.Agrees long (.registered (session.registerAtLevel id raw level).2)
      (.registered (session'.registerAtLevel id raw level).2)) :
    Concurs long name (.register id raw level) index index' := by
  refine ⟨?_, ?_, ?_⟩
  · simpa only [step, whenOpen, hsession, hsession'] using hmatches
  · simpa only [step, whenOpen, hsession, hsession'] using htogether
  · simpa only [Index.answer, hsession, hsession'] using hanswer

namespace Parallel

/-- An operation that both indexes ignore. -/
lemma concurs_of_same (h : Parallel apart index index')
    (htogether : Together long name index index') (hne : name ≠ apart)
    (hstep : index.step op = index) (hstep' : index'.step op = index')
    (hanswer : index'.answer op = index.answer op) : Concurs long name op index index' where
  matchesIn := by
    rw [hstep, hstep']
    exact h.matchesIn hne
  together := by rwa [hstep, hstep']
  answer := by
    rw [hanswer]
    exact .same _

/-- An operation that does nothing in either index keeps them parallel. -/
lemma concurs_of_idles (h : Parallel apart index index')
    (htogether : Together long name index index') (hne : name ≠ apart) (hidles : op.Idles index)
    (hidles' : op.Idles index') : Concurs long name op index index' :=
  h.concurs_of_same htogether hne (step_of_idles hidles) (step_of_idles hidles')
    ((answer_of_idles hidles').trans (answer_of_idles hidles).symm)

/-- Creating a field.

**Proof sketch.** If a session is open or no transaction is, nothing happens in either index.
Otherwise the definitions of the two views agree, so that both refuse, or both write the same
record. -/
lemma concurs_create (h : Parallel apart index index')
    (htogether : Together long name index index') (hne : name ≠ apart) (options : FieldOptions) :
    Concurs long name (.create name options) index index' := by
  rcases htogether.free_cases h with ⟨hfree, hfree'⟩ | ⟨txn, txn', hfree, hfree'⟩
  · exact h.concurs_of_idles htogether hne hfree hfree'
  obtain ⟨hsession, hwriter⟩ := free_eq_some_iff.mp hfree
  obtain ⟨hsession', hwriter'⟩ := free_eq_some_iff.mp hfree'
  have hapart := h.resemblesApart hwriter hwriter'
  have hdefinition := (hapart.field name hne).definition
  rcases Catalog.create_cases options hdefinition hapart.version with
    ⟨e, hcreate, hcreate'⟩ | ⟨record, after, after', hcreate, hcreate'⟩
  · refine h.concurs_of_same htogether hne ?_ ?_ ?_
    · simp only [step, whenFree_of_some hfree, hcreate]
    · simp only [step, whenFree_of_some hfree', hcreate']
    · simp only [answer, hfree, hfree', hcreate, hcreate']
  have hchanges := (h.left.writer txn hwriter).changes_create hcreate
  have hchanges' := (h.right.writer txn' hwriter').changes_create hcreate'
  obtain ⟨_, _, _, _, hafter⟩ := Snapshot.Sound.create_eq_ok_iff.mp hcreate
  obtain ⟨_, _, _, _, hafter'⟩ := Snapshot.Sound.create_eq_ok_iff.mp hcreate'
  refine ⟨?_, ?_, ?_⟩
  · rw [step_create hsession hwriter hcreate, step_create hsession' hwriter' hcreate']
    rintro _ _ ⟨⟩ ⟨⟩
    refine ⟨?_, ⟨?_, fun _ _ => ?_⟩, hapart.accepted name hne⟩
    · rw [hafter, hafter']
      exact hapart.nextPage
    · rw [hafter, hafter', WriteTransaction.get?_view_put, WriteTransaction.get?_view_put,
        if_pos rfl, if_pos rfl]
    · exact ⟨.blank, .blank, hchanges.holds, hchanges'.holds, rfl, fun _ => rfl⟩
  · rw [step_create hsession hwriter hcreate, step_create hsession' hwriter' hcreate']
    exact .closed hsession hsession'
  · simp only [answer, hfree, hfree', hcreate, hcreate']
    exact .same _

/-- Opening a session.

**Proof sketch.** If a session is open or no transaction is, nothing happens in either index.
Otherwise the fields resemble each other, so that both refuse, or both open sessions that resemble
each other. -/
lemma concurs_start (h : Parallel apart index index')
    (htogether : Together long name index index') (hne : name ≠ apart) (config : Config) :
    Concurs long name (.start config name) index index' := by
  rcases htogether.free_cases h with ⟨hfree, hfree'⟩ | ⟨txn, txn', hfree, hfree'⟩
  · exact h.concurs_of_idles htogether hne hfree hfree'
  obtain ⟨hsession, hwriter⟩ := free_eq_some_iff.mp hfree
  obtain ⟨hsession', hwriter'⟩ := free_eq_some_iff.mp hfree'
  have hapart := h.resemblesApart hwriter hwriter'
  rcases exists_started config (hapart.field name hne) (h.left.writer txn hwriter)
    (h.right.writer txn' hwriter') (hapart.accepted name hne) hapart.nextPage with
    ⟨e, hstart, hstart'⟩ | ⟨session, session', hstart, hstart', _, _, hname, hsame⟩
  · refine h.concurs_of_same htogether hne ?_ ?_ ?_
    · simp only [step, whenFree_of_some hfree, hstart]
    · simp only [step, whenFree_of_some hfree', hstart']
    · simp only [answer, hfree, hfree', hstart, hstart']
  refine ⟨?_, ?_, ?_⟩
  · rw [step_start hsession hwriter hstart, step_start hsession' hwriter' hstart']
    exact h.matchesIn hne
  · rw [step_start hsession hwriter hstart, step_start hsession' hwriter' hstart']
    exact .running rfl rfl hname rfl hsame
  · simp only [answer, hfree, hfree', hstart, hstart']
    exact .same _

/-- Drawing levels from another seed.

**Proof sketch.** By how the two sessions stand together. Sessions that resemble each other go on
with the same generator. -/
lemma concurs_reseed (h : Parallel apart index index')
    (htogether : Together long name index index') (hne : name ≠ apart) (seed : UInt64) :
    Concurs long name (.reseed seed) index index' := by
  cases htogether with
  | closed hsession hsession' =>
    exact h.concurs_of_idles (.closed hsession hsession') hne hsession hsession'
  | running hsession hsession' hname hadded hsame =>
    refine ⟨?_, ?_, .same _⟩
    · simp only [step, whenOpen, hsession, hsession']
      exact h.matchesIn hne
    · simp only [step, whenOpen, hsession, hsession', withSeed]
      generalize Generator.ofSeed seed = generator
      exact .running rfl rfl hname hadded (hsame.withGenerator generator)
  | failed hlong hsession hsession' hname hsame =>
    refine ⟨?_, ?_, .same _⟩
    · simp only [step, whenOpen, hsession, hsession']
      exact h.matchesIn hne
    · simp only [step, whenOpen, hsession, hsession', withSeed]
      generalize Generator.ofSeed seed = generator
      exact .failed hlong rfl rfl hname ⟨hsame.field, hsame.failure, hsame.nextPage⟩

/-- The write transactions after a vector has been registered, or has not.

**Proof sketch.** Each of the two transactions hands out page runs at most, which changes no
field. -/
lemma matchesIn_register (h : Parallel apart index index') (hne : name ≠ apart)
    {session session' : Registration} (hsession : index.session = some session)
    (hsession' : index'.session = some session') {id : UInt64} {raw : Bytes} {level : Option Nat}
    (hfits : (Operation.register id raw level).Fits index)
    (hfits' : (Operation.register id raw level).Fits index')
    (hnext : (session'.registerAtLevel id raw level).1.txn.nextPage ≤
      (session.registerAtLevel id raw level).1.txn.nextPage) :
    MatchesIn name (index.register session id raw level)
      (index'.register session' id raw level) := by
  have hwriter := (h.left.session session hsession).1
  have hwriter' := (h.right.session session' hsession').1
  have hextends := (session.continues_registerAtLevel id raw level
    (hfits.1 session hsession)).grows.extends_txn
  have hextends' := (session'.continues_registerAtLevel id raw level
    (hfits'.1 session' hsession')).grows.extends_txn
  have hapart := h.resemblesApart hwriter hwriter'
  -- Handing out page runs changes no field at all.
  have hresembles := (hapart.field name hne).of_keeps
    ((h.left.writer _ hwriter).keeps_extends hextends apart)
    ((h.right.writer _ hwriter').keeps_extends hextends' apart) hne
  intro txn txn' hafter hafter'
  rw [writer_register, Option.some.injEq] at hafter hafter'
  subst hafter hafter'
  refine ⟨hnext, hresembles, ?_⟩
  rw [pending_register, pending_register]
  exact hapart.accepted name hne

/-- Registering a vector.

**Proof sketch.** By how the two sessions stand together. Sessions that resemble each other both
refuse the vector, both take it in, or both fail with it, and in the last case the vector is too
long. -/
lemma concurs_register (h : Parallel apart index index')
    (htogether : Together long name index index') (hne : name ≠ apart) {id : UInt64} {raw : Bytes}
    {level : Option Nat} (hfits : (Operation.register id raw level).Fits index)
    (hlong : ¬(Operation.register id raw level).IsShort → long) :
    Concurs long name (.register id raw level) index index' := by
  have hfits' := h.fits (fun _ => htogether.exists_session) hfits
  cases htogether with
  | closed hsession hsession' =>
    exact h.concurs_of_idles (.closed hsession hsession') hne hsession hsession'
  | @running session session' hsession hsession' hname hadded hsame =>
    have hmatches := h.matchesIn_register hne hsession hsession' hfits hfits'
    rcases hsame.registerAtLevel_cases id raw (hfits.1 session hsession) hfits.2 with
      ⟨e, hregister, hregister'⟩ |
        ⟨after, after', stored, hregister, hregister', hencode, hfield, hafter⟩ |
        ⟨hraw, after, after', e, e', hregister, hregister', hfield, hafter⟩
    all_goals
      rw [hregister, hregister'] at hmatches
      refine .of_register hsession hsession' (hmatches ?_) ?_ ?_
    · exact hsame.nextPage
    · rw [Index.register, Index.register, hregister, hregister']
      exact .running rfl rfl hname hadded hsame
    · rw [hregister, hregister']
      exact .same _
    · exact hafter.nextPage
    · have haccept : accept session id raw = ⟨⟨id⟩, raw, stored⟩ := by
        rw [accept, hencode]
        rfl
      have haccept' : accept session' id raw = ⟨⟨id⟩, raw, stored⟩ := by
        rw [accept, hsame.field, hencode]
        rfl
      rw [Index.register, Index.register, hregister, hregister', haccept, haccept', hadded]
      exact .running rfl rfl (hfield.symm ▸ hname) rfl hafter
    · rw [hregister, hregister']
      exact .same _
    · exact hafter.nextPage
    · rw [Index.register, Index.register, hregister, hregister']
      exact .failed (hlong (Nat.not_le.mpr hraw)) rfl rfl (hfield.symm ▸ hname) hafter
    · rw [hregister, hregister']
      exact .failed (hlong (Nat.not_le.mpr hraw)) id e e'
  | @failed hlong session session' hsession hsession' hname hsame =>
    have hmatches := h.matchesIn_register hne hsession hsession' hfits hfits'
    obtain ⟨failed, reason, reason', hfailure, hfailure'⟩ := hsame.failure
    have hregister := registerAtLevel_of_failure hfailure id raw level
    have hregister' := registerAtLevel_of_failure hfailure' id raw level
    rw [hregister, hregister'] at hmatches
    refine .of_register hsession hsession' (hmatches hsame.nextPage) ?_ ?_
    · rw [Index.register, Index.register, hregister, hregister']
      exact .failed hlong rfl rfl hname hsame
    · rw [hregister, hregister']
      exact .refused hlong failed reason reason'

/-- Committing a session.

**Proof sketch.** By how the two sessions stand together. Sessions that resemble each other both
commit and write fields that resemble each other; failed ones answer with their failures. -/
lemma concurs_finish (h : Parallel apart index index')
    (htogether : Together long name index index') (hne : name ≠ apart) :
    Concurs long name .finish index index' := by
  cases htogether with
  | closed hsession hsession' =>
    exact h.concurs_of_idles (.closed hsession hsession') hne hsession hsession'
  | @running session session' hsession hsession' hname hadded hsame =>
    subst hname
    have hapart := h.resemblesApart (h.left.session session hsession).1
      (h.right.session session' hsession').1
    obtain ⟨txn, txn', hcommit, hcommit', hwritten, _, _, _, _, hnext⟩ :=
      hsame.exists_commit (hapart.field _ hne).definition
    refine ⟨?_, ?_, ?_⟩
    · rw [step_finish hsession hcommit, step_finish hsession' hcommit', hsame.field, hadded]
      rintro _ _ ⟨⟩ ⟨⟩
      exact ⟨hnext, hwritten, by simp only [Function.update_self, hsame.accepted]⟩
    · rw [step_finish hsession hcommit, step_finish hsession' hcommit']
      exact .closed rfl rfl
    · simp only [answer, hsession, hsession', hcommit, hcommit']
      exact .same _
  | @failed hlong session session' hsession hsession' hname hsame =>
    obtain ⟨id, reason, reason', hfailure, hfailure'⟩ := hsame.failure
    have hcommit := commit_of_failure hfailure
    have hcommit' := commit_of_failure hfailure'
    refine ⟨?_, ?_, ?_⟩
    · simp only [step, whenOpen, hsession, hsession', Index.finish, hcommit, hcommit']
      exact h.matchesIn hne
    · simp only [step, whenOpen, hsession, hsession', Index.finish, hcommit, hcommit']
      exact .closed rfl rfl
    · simp only [answer, hsession, hsession', hcommit, hcommit']
      exact .unfinished hlong id reason reason'

/-- Giving a session up. -/
lemma concurs_discard (h : Parallel apart index index')
    (htogether : Together long name index index') (hne : name ≠ apart) :
    Concurs long name .discard index index' := by
  rcases htogether.session_cases with
    ⟨hsession, hsession'⟩ | ⟨session, session', hsession, hsession'⟩
  · exact h.concurs_of_idles htogether hne hsession hsession'
  have hwriter := (h.left.session session hsession).1
  have hwriter' := (h.right.session session' hsession').1
  refine ⟨?_, ?_, .same _⟩
  · simp only [step, whenOpen, hsession, hsession']
    rintro _ _ ⟨⟩ ⟨⟩
    exact h.matchesIn hne _ _ hwriter hwriter'
  · simp only [step, whenOpen, hsession, hsession']
    exact .closed rfl rfl

/-- **An operation on another field** is answered alike.

**Proof sketch.** One case for each operation; the lemmas above deal with them. -/
theorem concurs (h : Parallel apart index index') (htogether : Together long name index index')
    (hne : name ≠ apart) (htouches : op.Touches name) (hfits : op.Fits index)
    (hlong : ¬op.IsShort → long) : Concurs long name op index index' := by
  cases op with
  | begin => exact htouches.elim
  | commit => exact htouches.elim
  | abandon => exact htouches.elim
  | create other options =>
    obtain rfl : other = name := htouches
    exact h.concurs_create htogether hne options
  | start config other =>
    obtain rfl : other = name := htouches
    exact h.concurs_start htogether hne config
  | reseed seed => exact h.concurs_reseed htogether hne seed
  | register id raw level => exact h.concurs_register htogether hne hfits hlong
  | finish => exact h.concurs_finish htogether hne
  | discard => exact h.concurs_discard htogether hne

/-- Operations on another field are answered alike, one after the other.

**Proof sketch.** Induction on the operations: one of them is answered alike and leaves indices that
are parallel again. -/
lemma answers (h : Parallel apart index index') (htogether : Together long name index index')
    (hne : name ≠ apart) (htouches : ∀ op ∈ ops, op.Touches name) (haffords : index.Affords ops)
    (hlong : ∀ op ∈ ops, ¬op.IsShort → long) :
    Parallel apart (ops.foldl step index) (ops.foldl step index') ∧
      List.Forall₂ (Answer.Agrees long) (index.answers ops) (index'.answers ops) := by
  induction ops generalizing index index' with
  | nil => exact ⟨h, .nil⟩
  | cons op ops ih =>
    obtain ⟨hop, htouches⟩ := List.forall_mem_cons.mp htouches
    obtain ⟨hshort, hlong⟩ := List.forall_mem_cons.mp hlong
    obtain ⟨hfits, haffords⟩ := haffords
    have hfits' := h.fits (fun _ => htogether.exists_session) hfits
    have hconcurs := h.concurs htogether hne hop hfits hshort
    obtain ⟨hattends, hattends'⟩ := htogether.attends
    have hnext := h.of_spares (h.left.spares_step (hop.on hattends) hfits).1
      (h.right.spares_step (hop.on hattends') hfits').1 (h.left.step hfits) (h.right.step hfits')
      (fun _ _ hwriter hwriter' => (hconcurs.matchesIn _ _ hwriter hwriter').1)
      fun _ => hconcurs.matchesIn
    obtain ⟨hlast, hanswers⟩ := ih hnext hconcurs.together htouches haffords hlong
    exact ⟨hlast, .cons hconcurs.answer hanswers⟩

/-! ## Deeds -/

variable {deed : Deed} {deeds : List Deed}

/-- **A deed that is left out** changes the one field only. -/
theorem of_concerns (h : Parallel apart index index') (hclosed : index.session = none)
    (hdeed : deed.concerns apart = true) (haffords : index.Affords deed.operations) :
    Parallel apart (deed.operations.foldl step index) index' := by
  have hspares := h.left.spares_foldl (attends_of_closed hclosed apart)
    (fun _ => Deed.touches_of_concerns hdeed) haffords
  have hrefl : index'.Spares apart 0 index' := .refl apart index'
  refine h.of_spares hspares hrefl (h.left.foldl haffords) h.right ?_ fun hne => absurd rfl hne
  intro txn txn' hwriter hwriter'
  obtain ⟨before, hbefore, htxn⟩ := hspares.exists_writer hwriter
  exact UInt64.le_trans (h.resemblesApart hbefore hwriter').nextPage htxn.le_nextPage

/-- **A deed that is kept** is answered alike.

**Proof sketch.** One case for each deed. A deed on another field consists of operations on that
field, and the others are answered alike by all parallel indices. -/
theorem of_not_concerns (h : Parallel apart index index') (hclosed : index.session = none)
    (hclosed' : index'.session = none) (hdeed : deed.concerns apart = false)
    (haffords : index.Affords deed.operations)
    (hlong : ∀ op ∈ deed.operations, ¬op.IsShort → long) :
    Parallel apart (deed.operations.foldl step index) (deed.operations.foldl step index') ∧
      List.Forall₂ (Answer.Agrees long) (index.answers deed.operations)
        (index'.answers deed.operations) := by
  have hfield : ∀ name, deed.concerns name = true → name ≠ apart := by
    rintro name hname rfl
    rw [hdeed] at hname
    cases hname
  cases deed with
  | begin =>
    obtain ⟨hnext, hanswer⟩ := h.begin
    refine ⟨hnext, .cons ?_ .nil⟩
    rw [hanswer]
    exact .same _
  | create name options =>
    have hname : (Deed.create name options).concerns name = true := beq_self_eq_true name
    exact h.answers (.closed hclosed hclosed') (hfield name hname)
      (fun _ => Deed.touches_of_concerns hname) haffords hlong
  | session config name acts ending =>
    have hname : (Deed.session config name acts ending).concerns name = true :=
      beq_self_eq_true name
    exact h.answers (.closed hclosed hclosed') (hfield name hname)
      (fun _ => Deed.touches_of_concerns hname) haffords hlong
  | commit =>
    obtain ⟨hnext, hanswer⟩ := h.commit hclosed hclosed'
    refine ⟨hnext, .cons ?_ .nil⟩
    rw [hanswer]
    exact .same _
  | abandon => exact ⟨h.abandon hclosed hclosed', .cons (.same _) .nil⟩

/-- **Deeds on other fields** are answered alike, whether those on one field are left out or not.

**Proof sketch.** Induction on the deeds: one that concerns the field is left out of the second run,
and any other is answered alike in both. -/
theorem transcript (h : Parallel apart index index') (hclosed : index.session = none)
    (hclosed' : index'.session = none)
    (haffords : index.Affords (deeds.flatMap Deed.operations))
    (hlong : ∀ deed ∈ deeds, deed.concerns apart = false →
      ∀ op ∈ deed.operations, ¬op.IsShort → long) :
    Parallel apart (index.after deeds) (index'.after (Deed.without apart deeds)) ∧
      List.Forall₂ (fun entry entry' => entry.1 = entry'.1 ∧
          List.Forall₂ (Answer.Agrees long) entry.2 entry'.2)
        ((index.transcript deeds).filter fun entry => !entry.1.concerns apart)
        (index'.transcript (Deed.without apart deeds)) := by
  induction deeds generalizing index index' with
  | nil => exact ⟨h, .nil⟩
  | cons deed deeds ih =>
    rw [List.flatMap_cons, affords_append] at haffords
    obtain ⟨hdeed, hdeeds⟩ := List.forall_mem_cons.mp hlong
    have hnext := session_foldl_operations hclosed deed
    rw [after_cons]
    cases hconcerns : deed.concerns apart with
    | true =>
      have hrest := ih (h.of_concerns hclosed hconcerns haffords.1) hnext hclosed' haffords.2 hdeeds
      simpa only [Deed.without, Index.transcript, List.filter_cons, hconcerns, Bool.not_true,
        Bool.false_eq_true, if_false] using hrest
    | false =>
      obtain ⟨hafter, hanswers⟩ := h.of_not_concerns hclosed hclosed' hconcerns haffords.1
        (hdeed hconcerns)
      obtain ⟨hlast, hrest⟩ := ih hafter hnext (session_foldl_operations hclosed' deed) haffords.2
        hdeeds
      simp only [Deed.without, Index.transcript, List.filter_cons, hconcerns, Bool.not_false,
        if_true, after_cons]
      exact ⟨hlast, .cons ⟨rfl, hanswers⟩ hrest⟩

end Parallel

/-- Answers that agree entry by entry are equal, if no vector is too long. -/
lemma eq_of_forall₂_agrees {entries entries' : List (Deed × List Answer)}
    (h : List.Forall₂ (fun entry entry' => entry.1 = entry'.1 ∧
      List.Forall₂ (Answer.Agrees False) entry.2 entry'.2) entries entries') :
    entries = entries' := by
  refine List.forall₂_eq_eq_eq ▸ h.imp fun entry entry' hentry => Prod.ext hentry.1 ?_
  exact List.forall₂_eq_eq_eq ▸ hentry.2.imp fun answer answer' hanswer => (hanswer.eq id).symm

/-- **Fields do not interfere.** If all deeds on one field are left out of some deeds, then all
others are answered as before, but for the reason that is given where a vector is too long for any
page run. After each of the deeds, readers and the write transaction give the same answers about all
other fields.

**Proof sketch.** The empty index is parallel to itself. By induction the indices stay parallel
along the deeds, where a deed on the field that is left out is done by the first one only; parallel
indices answer alike about all other fields. -/
theorem noninterference (apart : String) (deeds : List Deed)
    (haffords : empty.Affords (deeds.flatMap Deed.operations)) :
    List.Forall₂ (fun entry entry' => entry.1 = entry'.1 ∧
        List.Forall₂ (Answer.Agrees True) entry.2 entry'.2)
      ((empty.transcript deeds).filter fun entry => !entry.1.concerns apart)
      (empty.transcript (Deed.without apart deeds)) ∧
    ((∀ deed ∈ Deed.without apart deeds, ∀ op ∈ deed.operations, op.IsShort) →
      ((empty.transcript deeds).filter fun entry => !entry.1.concerns apart) =
        empty.transcript (Deed.without apart deeds)) ∧
    ∀ done, done <+: deeds → ∀ name, name ≠ apart →
      Snapshot.AnswersAlike name (empty.after done).store.beginRead
          (empty.after (Deed.without apart done)).store.beginRead ∧
        Option.Rel (fun txn txn' => Snapshot.AnswersAlike name txn.view txn'.view)
          (empty.after done).store.writer (empty.after (Deed.without apart done)).store.writer := by
  have hempty := parallel_empty apart
  refine ⟨?_, fun hshort => ?_, ?_⟩
  · exact (hempty.transcript rfl rfl haffords fun _ _ _ _ _ _ => trivial).2
  · refine eq_of_forall₂_agrees (hempty.transcript rfl rfl haffords ?_).2
    intro deed hdeed hconcerns op hop hlong
    exact hlong (hshort deed (List.mem_filter.mpr ⟨hdeed, by rw [hconcerns]; rfl⟩) op hop)
  · rintro done ⟨rest, rfl⟩ name hne
    rw [List.flatMap_append, affords_append] at haffords
    have hdone := hempty.transcript rfl rfl haffords.1 fun _ _ _ _ _ _ => True.intro
    exact hdone.1.answersAlike hne

end Index

/-- Two fields, the name of one of which begins with that of the other, and sessions on both. -/
def Deed.entangled : List Deed :=
  [.begin, .create "v" (.ofShape 2 1), .create "v2" (.ofShape 2 1),
    .session {} "v" [.register 1 [0, 0, 0, 0] none] .commit,
    .session {} "v2" [.reseed 7, .register 1 [0, 0, 128, 63] none, .register 2 [0, 0] none] .commit,
    .commit, .begin, .session {} "v" [.register 2 [0, 0, 128, 63] (some 1)] .drop,
    .session {} "v2" [.register 3 [0, 0, 0, 0] (some 1)] .commit, .commit]

/-- Leaving out the field with the shorter name. -/
theorem Index.transcript_entangled :
    empty.Affords (Deed.entangled.flatMap Deed.operations) ∧
      ((empty.transcript Deed.entangled).filter fun entry => !entry.1.concerns "v") =
        empty.transcript (Deed.without "v" Deed.entangled) ∧
      Snapshot.AnswersAlike "v2" (empty.after Deed.entangled).store.beginRead
        (empty.after (Deed.without "v" Deed.entangled)).store.beginRead := by
  have hfits : (FieldOptions.ofShape 2 1).Fits := ⟨by decide, by decide, by decide⟩
  have haffords : empty.Affords (Deed.entangled.flatMap Deed.operations) := by
    refine affords_of_length modest_empty sound_empty (by decide) ?_
    simp [Deed.entangled, Deed.operations, Act.operation, Registration.Ending.operation,
      Operation.InRange, hfits, maxLevel]
  have hfour : 8 ≤ maxStoredLength := by decide
  have htwo : 6 ≤ maxStoredLength := by decide
  obtain ⟨_, hequal, halike⟩ := noninterference "v" Deed.entangled haffords
  refine ⟨haffords, hequal ?_, (halike _ (List.prefix_refl _) "v2" (by decide)).1⟩
  simp [Deed.without, Deed.concerns, Deed.entangled, Deed.operations, Act.operation,
    Registration.Ending.operation, Operation.IsShort, hfour, htwo]

end Proximity

import Proximity.Proofs.Store.Chronicle

set_option relaxedAutoImplicit false
set_option autoImplicit false

/-!
# The store as a sequence of commits

A store and the readers that are open on it take one request after another. The changes of a write
transaction lie over the snapshot that it started from, with a mark for each key that is gone, and a
commit builds new maps from them. What the store shows is nothing but the sequence of its commits:
all answers are the same, whatever the requests are and in whatever order they come.

## Main definitions

* `Proximity.Service` — a store with its readers, and what it does with a request.
* `Proximity.Service.Follows` — the store shows what the sequence of commits says.

## Main results

* `Proximity.Service.Follows.step` — one request.
* `Proximity.Service.Follows.serve` — any requests.
* `Proximity.Service.answer_commit` — the write transaction answers what it would commit.
* `Proximity.Service.serve_rollback` — a transaction that is given up leaves no trace.
* `Proximity.Service.serve_refines_chronicle` — the store is the sequence of its commits.
-/

namespace Proximity

/-! ## The store with its readers -/

/-- A store, and the readers that are open on it. -/
structure Service where
  /-- The store. -/
  store : Store
  /-- The readers. -/
  readers : Nat → Option Snapshot

namespace Service

/-- A store without commits, and no reader. -/
def empty : Service where
  store := .empty
  readers _ := none

/-- The store with its readers after a request, and the answer to it. -/
def step (service : Service) : StoreRequest → Service × StoreReply
  | .beginRead reader =>
    ({ service with
        readers := Function.update service.readers reader (some service.store.beginRead) }, .done)
  | .endRead reader =>
    ({ service with readers := Function.update service.readers reader none }, .done)
  | .beginWrite =>
    match service.store.beginWrite with
    | .ok store => ({ service with store }, .done)
    | .error cause => (service, .refused cause)
  | .change change =>
    match service.store.writer with
    | none => (service, .absent)
    | some txn =>
      match txn.change change with
      | .ok (reply, next) =>
        ({ service with store := { service.store with writer := some next } }, reply)
      | .error cause => (service, .refused cause)
  | .askWriter question =>
    match service.store.writer with
    | none => (service, .absent)
    | some txn => (service, txn.answer question)
  | .askReader reader question =>
    match service.readers reader with
    | none => (service, .absent)
    | some snapshot => (service, snapshot.answer question)
  | .commit =>
    match service.store.commit? with
    | none => (service, .absent)
    | some (version, store) => ({ service with store }, .version version)
  | .rollback =>
    match service.store.writer with
    | none => (service, .absent)
    | some _ => ({ service with store := service.store.abandon }, .done)

/-- The store with its readers after some requests, and the answers to them. -/
def serve (service : Service) : List StoreRequest → Service × List StoreReply
  | [] => (service, [])
  | request :: requests =>
    let (next, reply) := service.step request
    let (last, replies) := next.serve requests
    (last, reply :: replies)

end Service

/-! ## One request after another -/

namespace StoreRequest

/-- Whether a request is about readers only. -/
def isOfReader : StoreRequest → Bool
  | beginRead _ | endRead _ | askReader _ _ => true
  | _ => false

/-- Whether a request leaves a reader open, if it is. -/
def spares (reader : Nat) : StoreRequest → Bool
  | beginRead other | endRead other => other ≠ reader
  | _ => true

/-- Whether a request leaves the write transaction open, if it is. -/
def isWithin : StoreRequest → Bool
  | commit | rollback => false
  | _ => true

end StoreRequest

namespace Service

variable {service : Service} {chronicle : Chronicle}

/-- **The store shows what the sequence of commits says**: the committed state, the open write
transaction with its changes, and what each reader has been opened on. -/
structure Follows (service : Service) (chronicle : Chronicle) : Prop where
  committed : service.store.committed.state = .after chronicle.commits
  writer : Option.Rel (fun txn changes => txn.base = service.store.committed ∧
    txn.view.state = (StoreState.after chronicle.commits).changeAll changes)
      service.store.writer chronicle.draft
  readers : ∀ reader, Option.Rel (fun snapshot count => count ≤ chronicle.commits.length ∧
    snapshot.state = .after (chronicle.commits.take count))
      (service.readers reader) (chronicle.readers reader)

/-- An empty store follows the empty chronicle. -/
lemma follows_empty : empty.Follows .empty where
  committed := Snapshot.state_empty
  writer := .none
  readers _ := .none

namespace Follows

/-- The version of a store is the number of its commits. -/
lemma version (h : service.Follows chronicle) :
    service.store.version = chronicle.commits.length := by
  rw [← StoreState.version_after, ← h.committed]
  rfl

/-- There is a write transaction if there is a draft, and then it is in the state of the draft. -/
lemma writer_cases (h : service.Follows chronicle) :
    (service.store.writer = none ∧ chronicle.draft = none) ∨
      ∃ txn changes, service.store.writer = some txn ∧ chronicle.draft = some changes ∧
        txn.base = service.store.committed ∧
        txn.view.state = (StoreState.after chronicle.commits).changeAll changes := by
  have hwriter := h.writer
  generalize service.store.writer = writer at hwriter
  generalize chronicle.draft = draft at hwriter
  cases hwriter with
  | none => exact .inl ⟨rfl, rfl⟩
  | some hrel => exact .inr ⟨_, _, rfl, rfl, hrel⟩

/-- A reader is open if the chronicle has it, and then it sees the commits up to one of them. -/
lemma reader_cases (h : service.Follows chronicle) (reader : Nat) :
    (service.readers reader = none ∧ chronicle.readers reader = none) ∨
      ∃ snapshot count, service.readers reader = some snapshot ∧
        chronicle.readers reader = some count ∧ count ≤ chronicle.commits.length ∧
        snapshot.state = .after (chronicle.commits.take count) := by
  have hreader := h.readers reader
  generalize service.readers reader = found at hreader
  generalize chronicle.readers reader = opened at hreader
  cases hreader with
  | none => exact .inl ⟨rfl, rfl⟩
  | some hrel => exact .inr ⟨_, _, rfl, rfl, hrel⟩

/-- A change is made by both or refused by both.

**Proof sketch.** If a transaction is open, it and the draft make the same change of the same
state. -/
lemma change (h : service.Follows chronicle) (change : Change) :
    (service.step (.change change)).2 = (chronicle.step (.change change)).2 ∧
      (service.step (.change change)).1.Follows (chronicle.step (.change change)).1 := by
  rcases h.writer_cases with ⟨hstore, hdraft⟩ | ⟨txn, changes, hstore, hdraft, hbase, hstate⟩
  · simp only [Service.step, Chronicle.step, hstore, hdraft]
    exact ⟨trivial, h⟩
  have hchange := txn.state_change change
  simp only [Service.step, Chronicle.step, hstore, hdraft, Chronicle.latest]
  rw [hstate] at hchange
  generalize txn.change change = result at hchange ⊢
  generalize hresult : ((StoreState.after chronicle.commits).changeAll changes).change change =
    result' at hchange ⊢
  cases hchange with
  | error e => exact ⟨rfl, h⟩
  | @ok a b hsame =>
    obtain ⟨reply, next⟩ := a
    obtain ⟨reply', state⟩ := b
    obtain ⟨rfl, rfl, hnext⟩ := hsame
    exact ⟨rfl, h.committed,
      .some ⟨hnext.trans hbase, (StoreState.changeAll_concat hresult).symm⟩, h.readers⟩

/-- A commit adds one list of changes; what readers have been opened on comes before it.

**Proof sketch.** The new committed state is what the list with the draft amounts to. Shorter
beginnings of the list are as they were. -/
lemma commit (h : service.Follows chronicle) :
    (service.step .commit).2 = (chronicle.step .commit).2 ∧
      (service.step .commit).1.Follows (chronicle.step .commit).1 := by
  rcases h.writer_cases with ⟨hstore, hdraft⟩ | ⟨txn, changes, hstore, hdraft, hbase, hstate⟩
  · simp only [Service.step, Chronicle.step, Store.commit?, hstore, hdraft, Option.map_none]
    exact ⟨trivial, h⟩
  simp only [Service.step, Chronicle.step, Store.commit?, hstore, hdraft, Option.map_some]
  refine ⟨?_, ?_, .none, fun reader => ?_⟩
  · rw [← h.version, Store.version, ← hbase]
    rfl
  · rw [WriteTransaction.state_commit, hstate, StoreState.after_concat]
  · rcases h.reader_cases reader with ⟨hread, hcount⟩ | ⟨snapshot, count, hread, hcount, hle, hsame⟩
    · simp only [hread, hcount]
      exact .none
    · simp only [hread, hcount]
      refine .some ⟨?_, ?_⟩
      · rw [List.length_append]
        omega
      · rw [hsame, List.take_append_of_le_length hle]

/-- **One request** is answered as the sequence of commits says, and it goes on following it.

**Proof sketch.** One case for each request. -/
theorem step (h : service.Follows chronicle) (request : StoreRequest) :
    (service.step request).2 = (chronicle.step request).2 ∧
      (service.step request).1.Follows (chronicle.step request).1 := by
  cases request with
  | beginRead reader =>
    refine ⟨rfl, h.committed, h.writer, fun other => ?_⟩
    simp only [Service.step, Chronicle.step, Function.update_apply]
    split_ifs
    · refine .some ⟨Nat.le_refl _, ?_⟩
      rw [List.take_length]
      exact h.committed
    · exact h.readers other
  | endRead reader =>
    refine ⟨rfl, h.committed, h.writer, fun other => ?_⟩
    simp only [Service.step, Chronicle.step, Function.update_apply]
    split_ifs
    · exact .none
    · exact h.readers other
  | beginWrite =>
    rcases h.writer_cases with ⟨hstore, hdraft⟩ | ⟨txn, changes, hstore, hdraft, _⟩
    · simp only [Service.step, Chronicle.step, Store.beginWrite, hstore, hdraft]
      exact ⟨trivial, h.committed,
        .some ⟨rfl, (WriteTransaction.state_start _).trans h.committed⟩, h.readers⟩
    · simp only [Service.step, Chronicle.step, Store.beginWrite, hstore, hdraft]
      exact ⟨trivial, h⟩
  | change change => exact h.change change
  | askWriter question =>
    rcases h.writer_cases with ⟨hstore, hdraft⟩ | ⟨txn, changes, hstore, hdraft, _, hstate⟩
    · simp only [Service.step, Chronicle.step, hstore, hdraft]
      exact ⟨trivial, h⟩
    · simp only [Service.step, Chronicle.step, hstore, hdraft, Chronicle.latest]
      exact ⟨(txn.answer_eq question).trans (by rw [hstate]), h⟩
  | askReader reader question =>
    rcases h.reader_cases reader with ⟨hread, hcount⟩ | ⟨snapshot, count, hread, hcount, _, hsame⟩
    · simp only [Service.step, Chronicle.step, hread, hcount]
      exact ⟨trivial, h⟩
    · simp only [Service.step, Chronicle.step, hread, hcount]
      exact ⟨(snapshot.answer_eq question).trans (by rw [hsame]), h⟩
  | commit => exact h.commit
  | rollback =>
    rcases h.writer_cases with ⟨hstore, hdraft⟩ | ⟨txn, changes, hstore, hdraft, _⟩
    · simp only [Service.step, Chronicle.step, hstore, hdraft]
      exact ⟨trivial, h⟩
    · simp only [Service.step, Chronicle.step, hstore, hdraft]
      exact ⟨trivial, h.committed, .none, h.readers⟩

/-- **Any requests** are answered as the sequence of commits says. -/
theorem serve (h : service.Follows chronicle) (requests : List StoreRequest) :
    (service.serve requests).2 = (chronicle.serve requests).2 ∧
      (service.serve requests).1.Follows (chronicle.serve requests).1 := by
  induction requests generalizing service chronicle with
  | nil => exact ⟨rfl, h⟩
  | cons request requests ih =>
    obtain ⟨hreply, hnext⟩ := h.step request
    obtain ⟨hreplies, hlast⟩ := ih hnext
    exact ⟨congrArg₂ List.cons hreply hreplies, hlast⟩

end Follows

/-! ## Open and abandoned transactions -/

/-- A request, and then the others. -/
lemma serve_cons (service : Service) (request : StoreRequest) (requests : List StoreRequest) :
    service.serve (request :: requests) = (((service.step request).1.serve requests).1,
      (service.step request).2 :: ((service.step request).1.serve requests).2) := rfl

/-- Requests, and then further ones. -/
lemma serve_append (service : Service) (requests more : List StoreRequest) :
    service.serve (requests ++ more) = (((service.serve requests).1.serve more).1,
      (service.serve requests).2 ++ ((service.serve requests).1.serve more).2) := by
  induction requests generalizing service with
  | nil => rfl
  | cons request requests ih =>
    simp only [List.cons_append, serve, ih]

/-- **What the write transaction answers is what it would commit**: a reader that is opened right
after an immediate commit gives the same answers.

**Proof sketch.** A commit keeps what the transaction shows, and the reader is opened on that. -/
theorem answer_commit {txn : WriteTransaction} (h : service.store.writer = some txn) (reader : Nat)
    {question : Question} (hquestion : question ≠ .version) :
    (service.serve [.commit, .beginRead reader, .askReader reader question]).2.getLast? =
      some (service.step (.askWriter question)).2 := by
  have hanswer : txn.commit.answer question = txn.answer question := by
    cases question with
    | run page =>
      rw [WriteTransaction.answer, Snapshot.answer, WriteTransaction.run_commit,
        WriteTransaction.run_view]
    | value key =>
      rw [WriteTransaction.answer, Snapshot.answer, WriteTransaction.get?_commit,
        WriteTransaction.get?_view]
    | version => exact absurd rfl hquestion
  simp only [serve, step, Store.commit?, h, Option.map_some, Function.update_self, Store.beginRead,
    hanswer]
  rfl

/-- Asking a reader changes nothing. -/
lemma step_askReader (service : Service) (reader : Nat) (question : Question) :
    (service.step (.askReader reader question)).1 = service := by
  simp only [step]
  cases service.readers reader <;> rfl

/-- One request changes a reader only if it opens or ends it.

**Proof sketch.** One case for each request. -/
lemma readers_step {reader : Nat} {request : StoreRequest} (h : request.spares reader = true) :
    (service.step request).1.readers reader = service.readers reader := by
  cases request with
  | beginRead other => exact Function.update_of_ne (of_decide_eq_true h).symm _ _
  | endRead other => exact Function.update_of_ne (of_decide_eq_true h).symm _ _
  | beginWrite =>
    simp only [step]
    cases service.store.beginWrite <;> rfl
  | change change =>
    simp only [step]
    cases service.store.writer with
    | none => rfl
    | some txn => simp only; cases txn.change change <;> rfl
  | askWriter question =>
    simp only [step]
    cases service.store.writer <;> rfl
  | askReader other question =>
    rw [step_askReader]
  | commit =>
    simp only [step]
    cases service.store.commit? <;> rfl
  | rollback =>
    simp only [step]
    cases service.store.writer <;> rfl

/-- **A reader is kept** as long as it is not ended or opened anew. -/
theorem readers_serve {reader : Nat} {requests : List StoreRequest}
    (h : ∀ request ∈ requests, request.spares reader = true) :
    (service.serve requests).1.readers reader = service.readers reader := by
  induction requests generalizing service with
  | nil => rfl
  | cons request requests ih =>
    exact (ih fun other hother => h other (by simp [hother])).trans
      (readers_step (h request (by simp)))

/-- The store and its readers without the write transaction. -/
def withoutWriter (service : Service) : Service :=
  { service with store := service.store.abandon }

/-- A rollback takes the write transaction away, and nothing else. -/
lemma step_rollback {txn : WriteTransaction} (h : service.store.writer = some txn) :
    (service.step .rollback).1 = service.withoutWriter := by
  simp only [step, h]
  rfl

/-- What a request does while the write transaction stays open: without the transaction, only what
is about readers matters.

**Proof sketch.** One case for each request. It leaves the transaction open, and nothing but readers
and the transaction changes. -/
lemma step_isWithin {txn : WriteTransaction} (hwriter : service.store.writer = some txn)
    {request : StoreRequest} (h : request.isWithin = true) :
    (∃ next, (service.step request).1.store.writer = some next) ∧
      (service.step request).1.withoutWriter =
        (service.withoutWriter.serve ([request].filter StoreRequest.isOfReader)).1 := by
  cases request with
  | beginRead reader => exact ⟨⟨txn, hwriter⟩, rfl⟩
  | endRead reader => exact ⟨⟨txn, hwriter⟩, rfl⟩
  | beginWrite =>
    have hsame : (service.step .beginWrite).1 = service := by
      simp only [step, Store.beginWrite, hwriter]
    rw [hsame]
    exact ⟨⟨txn, hwriter⟩, rfl⟩
  | change change =>
    simp only [step, hwriter]
    cases txn.change change with
    | error e => exact ⟨⟨txn, hwriter⟩, rfl⟩
    | ok made => exact ⟨⟨made.2, rfl⟩, rfl⟩
  | askWriter question =>
    have hsame : (service.step (.askWriter question)).1 = service := by simp only [step, hwriter]
    rw [hsame]
    exact ⟨⟨txn, hwriter⟩, rfl⟩
  | askReader reader question =>
    rw [step_askReader]
    exact ⟨⟨txn, hwriter⟩, (step_askReader service.withoutWriter reader question).symm⟩
  | commit => cases h
  | rollback => cases h

/-- **What is done within a write transaction** is not seen once the transaction is taken away.

**Proof sketch.** Induction on the requests. -/
theorem serve_isWithin {requests : List StoreRequest}
    (hwriter : ∃ txn, service.store.writer = some txn)
    (h : ∀ request ∈ requests, request.isWithin = true) :
    (∃ next, (service.serve requests).1.store.writer = some next) ∧
      (service.serve requests).1.withoutWriter =
        (service.withoutWriter.serve (requests.filter StoreRequest.isOfReader)).1 := by
  induction requests generalizing service with
  | nil => exact ⟨hwriter, rfl⟩
  | cons request requests ih =>
    obtain ⟨txn, htxn⟩ := hwriter
    obtain ⟨hnext, hone⟩ := step_isWithin htxn (h request (by simp))
    obtain ⟨hlast, hrest⟩ := ih hnext fun other hother => h other (by simp [hother])
    refine ⟨hlast, hrest.trans ?_⟩
    rw [← List.singleton_append, List.filter_append, serve_append, hone]

/-- **A transaction that is given up leaves no trace**: the store and its readers are as if only the
requests about readers had come.

**Proof sketch.** The transaction is taken away, and what had happened besides is about readers. -/
theorem serve_rollback {requests : List StoreRequest} (hwriter : service.store.writer = none)
    (h : ∀ request ∈ requests, request.isWithin = true) :
    (service.serve (.beginWrite :: requests ++ [.rollback])).1 =
      (service.serve (requests.filter StoreRequest.isOfReader)).1 := by
  have hbegin : (service.step .beginWrite).1 =
      { service with store := { service.store with
        writer := some (.start service.store.committed) } } := by
    simp only [step, Store.beginWrite, hwriter]
  have hbefore : (service.step .beginWrite).1.withoutWriter = service := by
    rw [hbegin, withoutWriter, Store.abandon]
    simp only [← hwriter]
  obtain ⟨⟨next, hnext⟩, hlast⟩ :=
    @serve_isWithin (service.step .beginWrite).1 requests ⟨_, by rw [hbegin]⟩ h
  rw [hbefore] at hlast
  rw [← hlast, List.cons_append, serve_cons, serve_append]
  exact step_rollback hnext

/-! ## The store and its commits -/

/-- **The store is the sequence of its commits.** After any requests:

* all answers are those of the sequence of commits;
* the committed state is what the commits amount to, each the changes that its transaction has made
  with success, in order, and its version is their number;
* an open write transaction has started from the committed state and shows what its changes make of
  it, and its answers are those of a reader that is opened right after an immediate commit;
* a write transaction that is given up leaves no trace, and the next one hands out the same page;
* an open reader shows what the commits amounted to when it was opened, whatever comes later.

**Proof sketch.** By induction on the requests the store follows the list of its commits; each part
reads off what following means. -/
theorem serve_refines_chronicle (requests : List StoreRequest) :
    (empty.serve requests).2 = (Chronicle.empty.serve requests).2 ∧
    (empty.serve requests).1.store.committed.state =
      .after (Chronicle.empty.serve requests).1.commits ∧
    (empty.serve requests).1.store.version = (Chronicle.empty.serve requests).1.commits.length ∧
    (∀ txn, (empty.serve requests).1.store.writer = some txn →
      txn.base = (empty.serve requests).1.store.committed ∧
      (∃ changes, (Chronicle.empty.serve requests).1.draft = some changes ∧
        txn.view.state =
          (StoreState.after (Chronicle.empty.serve requests).1.commits).changeAll changes) ∧
      ∀ reader question, question ≠ .version →
        ((empty.serve requests).1.serve
          [.commit, .beginRead reader, .askReader reader question]).2.getLast? =
            some ((empty.serve requests).1.step (.askWriter question)).2) ∧
    ((empty.serve requests).1.store.writer = none → ∀ more : List StoreRequest,
      (∀ request ∈ more, request.isWithin = true) →
        ((empty.serve requests).1.serve (.beginWrite :: more ++ [.rollback])).1 =
          ((empty.serve requests).1.serve (more.filter StoreRequest.isOfReader)).1) ∧
    ∀ reader snapshot, (empty.serve requests).1.readers reader = some snapshot →
      (∃ count, (Chronicle.empty.serve requests).1.readers reader = some count ∧
        count ≤ (Chronicle.empty.serve requests).1.commits.length ∧
        snapshot.state = .after ((Chronicle.empty.serve requests).1.commits.take count)) ∧
      ∀ more : List StoreRequest, (∀ request ∈ more, request.spares reader = true) →
        ((empty.serve requests).1.serve more).1.readers reader = some snapshot := by
  obtain ⟨hreplies, hfollows⟩ := follows_empty.serve requests
  refine ⟨hreplies, hfollows.committed, hfollows.version, ?_,
    fun hwriter more hmore => serve_rollback hwriter hmore, ?_⟩
  · intro txn hwriter
    rcases hfollows.writer_cases with ⟨hnone, _⟩ | ⟨txn', changes, hsome, hdraft, hbase, hstate⟩
    · rw [hwriter] at hnone
      cases hnone
    · obtain rfl := Option.some.inj (hwriter.symm.trans hsome)
      exact ⟨hbase, ⟨changes, hdraft, hstate⟩, fun reader question hquestion =>
        answer_commit hwriter reader hquestion⟩
  · intro reader snapshot hreader
    refine ⟨?_, fun more hmore => (readers_serve hmore).trans hreader⟩
    rcases hfollows.reader_cases reader with ⟨hnone, _⟩ | ⟨found, count, hfound, hcount, hle, hsame⟩
    · rw [hreader] at hnone
      cases hnone
    · obtain rfl := Option.some.inj (hreader.symm.trans hfound)
      exact ⟨count, hcount, hle, hsame⟩

/-- A value is committed, a reader is opened, and a transaction removes the value. -/
def removing : List StoreRequest :=
  [.beginWrite, .change (.put [1] [2]), .commit, .beginRead 0, .beginWrite, .change (.delete [1])]

/-- The reader keeps the value, also after the commit, which takes it from later readers. -/
theorem exists_reader_removing :
    (∃ snapshot, (empty.serve removing).1.readers 0 = some snapshot ∧
      snapshot.state = .after [[.put [1] [2]]] ∧
      ((empty.serve removing).1.serve [.commit, .beginRead 1]).1.readers 0 = some snapshot) ∧
    ((empty.serve removing).1.serve [.commit, .beginRead 1, .askReader 1 (.value [1])]).2.getLast? =
      some ((empty.serve removing).1.step (.askWriter (.value [1]))).2 ∧
    ((empty.serve (removing ++ [.rollback])).1.serve
        (.beginWrite :: [.change (.allocate 3)] ++ [.rollback])).1 =
      (empty.serve (removing ++ [.rollback])).1 := by
  obtain ⟨_, _, _, hwriter, _, hreaders⟩ := serve_refines_chronicle removing
  obtain ⟨_, _, _, _, hrollback, _⟩ := serve_refines_chronicle (removing ++ [.rollback])
  obtain ⟨snapshot, hsnapshot⟩ : ∃ snapshot, (empty.serve removing).1.readers 0 = some snapshot :=
    ⟨_, rfl⟩
  obtain ⟨⟨count, hcount, _, hstate⟩, hkept⟩ := hreaders 0 snapshot hsnapshot
  obtain rfl : 1 = count := Option.some.inj hcount
  obtain ⟨txn, htxn⟩ : ∃ txn, (empty.serve removing).1.store.writer = some txn := ⟨_, rfl⟩
  exact ⟨⟨snapshot, hsnapshot, hstate, hkept _ (by decide)⟩,
    (hwriter txn htxn).2.2 1 (.value [1]) (by simp), hrollback rfl _ (by decide)⟩

end Service

end Proximity

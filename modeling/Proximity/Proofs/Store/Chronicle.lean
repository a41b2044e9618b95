import Mathlib.Logic.Function.Basic
import Proximity.Proofs.Store.Arising

set_option relaxedAutoImplicit false
set_option autoImplicit false

/-!
# Sequences of commits

What a store amounts to is a list of commits, each of them the changes that a transaction has made
with success in the order in which it made them, together with the changes of the transaction that
is open, and for each reader how many commits there were when it was opened. Changes are applied to
one state, one after the other, where a write transaction lays them over a snapshot.

## Main definitions

* `Proximity.Change`, `Proximity.Question`, `Proximity.StoreRequest` — what can be asked of a store.
* `Proximity.StoreState` — what can be seen of a snapshot, and what a change does to it.
* `Proximity.StoreState.after` — the state after some commits.
* `Proximity.Chronicle` — the sequence of commits, and what it does with a request.

## Main results

* `Proximity.StoreState.version_after` — the version is the number of commits.
* `Proximity.WriteTransaction.answer_eq` — what a write transaction answers.
* `Proximity.WriteTransaction.state_change` — one change, over a snapshot and directly.
* `Proximity.WriteTransaction.state_commit` — what a commit shows.
-/

namespace Proximity

/-! ## Requests -/

/-- A change that a write transaction can make. -/
inductive Change
  /-- Hands out a run. -/
  | allocate (pages : Nat)
  /-- Replaces the contents of a run. -/
  | writeRun (page : PageId) (contents : Run)
  /-- Sets the value under a key. -/
  | put (key value : Bytes)
  /-- Removes a key. -/
  | delete (key : Bytes)

/-- What a transaction can be asked. -/
inductive Question
  /-- The contents of a run. -/
  | run (page : PageId)
  /-- The value under a key. -/
  | value (key : Bytes)
  /-- The version that the transaction reads from. -/
  | version

/-- What can be asked of a store. Readers go by numbers. -/
inductive StoreRequest
  /-- Opens a read transaction. -/
  | beginRead (reader : Nat)
  /-- Ends a read transaction. -/
  | endRead (reader : Nat)
  /-- Opens the write transaction. -/
  | beginWrite
  /-- Has the write transaction make a change. -/
  | change (change : Change)
  /-- Asks the write transaction. -/
  | askWriter (question : Question)
  /-- Asks a read transaction. -/
  | askReader (reader : Nat) (question : Question)
  /-- Commits the write transaction. -/
  | commit
  /-- Ends the write transaction without a commit. -/
  | rollback

/-- What a store answers. -/
inductive StoreReply
  /-- It is done. -/
  | done
  /-- The first page of a run that has been handed out. -/
  | page (page : PageId)
  /-- The contents of a run. -/
  | contents (run : Run)
  /-- The value under a key, if there is one. -/
  | value (value : Option Bytes)
  /-- A version. -/
  | version (version : Nat)
  /-- It is refused. -/
  | refused (cause : StoreError)
  /-- There is no such transaction. -/
  | absent
deriving DecidableEq

/-! ## Answers and changes of transactions -/

/-- What a read transaction answers. -/
def Snapshot.answer (snapshot : Snapshot) : Question → StoreReply
  | .run page =>
    match snapshot.run page with
    | .ok run => .contents run
    | .error cause => .refused cause
  | .value key => .value (snapshot.get? key)
  | .version => .version snapshot.version

namespace WriteTransaction

/-- What a write transaction answers. -/
def answer (txn : WriteTransaction) : Question → StoreReply
  | .run page =>
    match txn.run page with
    | .ok run => .contents run
    | .error cause => .refused cause
  | .value key => .value (txn.get? key)
  | .version => .version txn.version

/-- The answer to a change, and the transaction after it. -/
def change (txn : WriteTransaction) : Change → Except StoreError (StoreReply × WriteTransaction)
  | .allocate pages => do
    let (page, next) ← txn.allocate pages
    return (.page page, next)
  | .writeRun page contents => do
    let next ← txn.writeRun page contents
    return (.done, next)
  | .put key value => .ok (.done, txn.put key value)
  | .delete key => .ok (.done, txn.delete key)

end WriteTransaction

/-! ## The sequence of commits -/

/-- What can be seen of a snapshot: its version, the next page, the runs and the values. -/
@[ext]
structure StoreState where
  /-- The number of commits that led here. -/
  version : Nat
  /-- The first page that has never been handed out. -/
  nextPage : UInt64
  /-- The runs. -/
  run : PageId → Option Run
  /-- The values. -/
  value : Bytes → Option Bytes

namespace StoreState

/-- The state before the first commit. -/
def empty : StoreState where
  version := 0
  nextPage := 0
  run _ := none
  value _ := none

/-- What can be read from a state. -/
def answer (state : StoreState) : Question → StoreReply
  | .run page =>
    match state.run page with
    | some run => .contents run
    | none => .refused (.pageNotFound page)
  | .value key => .value (state.value key)
  | .version => .version state.version

/-- The answer to a change, and the state after it. -/
def change (state : StoreState) : Change → Except StoreError (StoreReply × StoreState)
  | .allocate pages =>
    if pages = 0 then .error (.invalidInput "cannot allocate an empty page run")
    else .ok (.page ⟨state.nextPage⟩, { state with
      nextPage := state.nextPage + UInt64.ofNat pages
      run := Function.update state.run ⟨state.nextPage⟩ (some (Run.blank pages)) })
  | .writeRun page contents =>
    match state.run page with
    | none => .error (.pageNotFound page)
    | some current =>
      if contents.size = current.size then
        .ok (.done, { state with run := Function.update state.run page (some contents) })
      else .error (.runLength page current.size contents.size)
  | .put key value =>
    .ok (.done, { state with value := Function.update state.value key (some value) })
  | .delete key => .ok (.done, { state with value := Function.update state.value key none })

/-- The state after some changes; one that is refused changes nothing. -/
def changeAll (state : StoreState) (changes : List Change) : StoreState :=
  changes.foldl (fun state change =>
    match state.change change with
    | .ok (_, next) => next
    | .error _ => state) state

/-- **The state after some commits**, each of them a list of changes. -/
def after (commits : List (List Change)) : StoreState :=
  commits.foldl (fun state changes =>
    let next := state.changeAll changes
    { next with version := next.version + 1 }) empty

end StoreState

/-- **A sequence of commits**, with the transactions that are open on it. -/
structure Chronicle where
  /-- The commits, each with the changes that its transaction has made, in order. -/
  commits : List (List Change)
  /-- The changes that the open write transaction has made, in order. -/
  draft : Option (List Change)
  /-- How many commits there were when a reader was opened. -/
  readers : Nat → Option Nat

namespace Chronicle

/-- No commits, and no transaction. -/
def empty : Chronicle where
  commits := []
  draft := none
  readers _ := none

/-- The latest committed state. -/
def latest (chronicle : Chronicle) : StoreState :=
  .after chronicle.commits

/-- The sequence of commits after a request, and the answer to it. -/
def step (chronicle : Chronicle) : StoreRequest → Chronicle × StoreReply
  | .beginRead reader =>
    ({ chronicle with
        readers := Function.update chronicle.readers reader (some chronicle.commits.length) },
      .done)
  | .endRead reader =>
    ({ chronicle with readers := Function.update chronicle.readers reader none }, .done)
  | .beginWrite =>
    match chronicle.draft with
    | some _ => (chronicle, .refused .writerBusy)
    | none => ({ chronicle with draft := some [] }, .done)
  | .change change =>
    match chronicle.draft with
    | none => (chronicle, .absent)
    | some changes =>
      match (chronicle.latest.changeAll changes).change change with
      | .ok (reply, _) => ({ chronicle with draft := some (changes ++ [change]) }, reply)
      | .error cause => (chronicle, .refused cause)
  | .askWriter question =>
    match chronicle.draft with
    | none => (chronicle, .absent)
    | some changes => (chronicle, (chronicle.latest.changeAll changes).answer question)
  | .askReader reader question =>
    match chronicle.readers reader with
    | none => (chronicle, .absent)
    | some count =>
      (chronicle, (StoreState.after (chronicle.commits.take count)).answer question)
  | .commit =>
    match chronicle.draft with
    | none => (chronicle, .absent)
    | some changes =>
      ({ chronicle with commits := chronicle.commits ++ [changes], draft := none },
        .version (chronicle.commits.length + 1))
  | .rollback =>
    match chronicle.draft with
    | none => (chronicle, .absent)
    | some _ => ({ chronicle with draft := none }, .done)

/-- The sequence of commits after some requests, and the answers to them. -/
def serve (chronicle : Chronicle) : List StoreRequest → Chronicle × List StoreReply
  | [] => (chronicle, [])
  | request :: requests =>
    let (next, reply) := chronicle.step request
    let (last, replies) := next.serve requests
    (last, reply :: replies)

end Chronicle

/-! ## States of commits -/

namespace StoreState

variable {state next : StoreState} {change : Change} {reply : StoreReply}
  {commits : List (List Change)} {changes : List Change}

/-- A change within a transaction leaves the version.

**Proof sketch.** One case for each change. -/
lemma version_of_change (h : state.change change = .ok (reply, next)) :
    next.version = state.version := by
  cases change with
  | allocate pages =>
    rw [StoreState.change] at h
    split at h
    · cases h
    · rw [← (Prod.mk.inj (Except.ok.inj h)).2]
  | writeRun page contents =>
    rw [StoreState.change] at h
    split at h
    · cases h
    · split at h
      · rw [← (Prod.mk.inj (Except.ok.inj h)).2]
      · cases h
  | put key value => rw [← (Prod.mk.inj (Except.ok.inj h)).2]
  | delete key => rw [← (Prod.mk.inj (Except.ok.inj h)).2]

/-- Changes do not change the version. -/
lemma version_changeAll (state : StoreState) (changes : List Change) :
    (state.changeAll changes).version = state.version := by
  induction changes generalizing state with
  | nil => rfl
  | cons change changes ih =>
    rw [changeAll, List.foldl_cons]
    refine (ih _).trans ?_
    split
    · next h => exact version_of_change h
    · rfl

/-- All changes, the last of which succeeds. -/
lemma changeAll_concat (h : (state.changeAll changes).change change = .ok (reply, next)) :
    state.changeAll (changes ++ [change]) = next := by
  rw [changeAll, List.foldl_append, List.foldl_cons, List.foldl_nil, ← changeAll, h]

/-- The state after commits, the last of which brings the next version. -/
lemma after_concat (commits : List (List Change)) (changes : List Change) :
    after (commits ++ [changes]) = { (after commits).changeAll changes with
      version := ((after commits).changeAll changes).version + 1 } := by
  rw [after, List.foldl_append, List.foldl_cons, List.foldl_nil, ← after]

/-- **The version is the number of commits.** -/
theorem version_after (commits : List (List Change)) :
    (after commits).version = commits.length := by
  induction commits using List.reverseRecOn with
  | nil => rfl
  | append_singleton commits changes ih =>
    rw [after_concat, version_changeAll, ih, List.length_append, List.length_singleton]

end StoreState

/-! ## What can be seen of a snapshot -/

namespace Snapshot

/-- What can be seen of a snapshot. -/
def state (snapshot : Snapshot) : StoreState where
  version := snapshot.version
  nextPage := snapshot.nextPage
  run page := (snapshot.run page).toOption
  value := snapshot.get?

/-- The state of an empty snapshot. -/
lemma state_empty : empty.state = .empty := by
  ext <;> simp [state, empty, StoreState.empty, run, get?, Except.toOption]

/-- There is a run or there is none. -/
lemma run_eq (snapshot : Snapshot) (page : PageId) :
    snapshot.run page = match snapshot.state.run page with
      | some run => .ok run
      | none => .error (.pageNotFound page) := by
  simp only [state, run]
  cases snapshot.runs[page]? <;> rfl

/-- A snapshot answers what its state answers. -/
lemma answer_eq (snapshot : Snapshot) (question : Question) :
    snapshot.answer question = snapshot.state.answer question := by
  cases question with
  | run page =>
    rw [answer, run_eq, StoreState.answer]
    cases snapshot.state.run page <;> rfl
  | value key => rfl
  | version => rfl

/-- Snapshots with the same look-ups have the same state. -/
lemma state_congr {snapshot next : Snapshot} (hversion : next.version = snapshot.version)
    (hpage : next.nextPage = snapshot.nextPage) (hrun : ∀ page, next.run page = snapshot.run page)
    (hget : ∀ key, next.get? key = snapshot.get? key) : next.state = snapshot.state :=
  StoreState.ext hversion hpage (funext fun page => congrArg Except.toOption (hrun page))
    (funext hget)

/-- Where one run has been set, what can be seen of the runs is updated there. -/
lemma run_state_update {snapshot next : Snapshot} {page : PageId} {contents : Run}
    (h : ∀ other, next.run other = if page = other then .ok contents else snapshot.run other) :
    next.state.run = Function.update snapshot.state.run page (some contents) := by
  funext other
  simp only [state, h, Function.update_apply, @eq_comm _ other page]
  split_ifs <;> rfl

/-- Where one key has been touched, what can be seen of the values is updated there. -/
lemma value_state_update {snapshot next : Snapshot} {key : Bytes} {value : Option Bytes}
    (h : ∀ other, next.get? other = if key = other then value else snapshot.get? other) :
    next.state.value = Function.update snapshot.state.value key value := by
  funext other
  simp only [state, h, Function.update_apply, @eq_comm _ other key]

end Snapshot

/-! ## Changes -/

namespace WriteTransaction

variable (txn : WriteTransaction)

/-- Deleting a key takes away its value and no other. -/
lemma get?_view_delete (key key' : Bytes) :
    (txn.delete key).view.get? key' = if key = key' then none else txn.view.get? key' := by
  rw [get?_view, get?_view]
  simp only [get?, delete, Std.TreeMap.getElem?_insert, Std.LawfulEqCmp.compare_eq_iff_eq]
  split_ifs <;> rfl

/-- A write transaction answers what its view answers. -/
theorem answer_eq (question : Question) : txn.answer question = txn.view.state.answer question := by
  rw [← Snapshot.answer_eq]
  cases question with
  | run page => rw [answer, Snapshot.answer, run_view]
  | value key => rw [answer, Snapshot.answer, get?_view]
  | version => rfl

/-- A new write transaction shows the committed state. -/
lemma state_start (base : Snapshot) : (start base).view.state = base.state :=
  Snapshot.state_congr rfl rfl (run_start base) (get?_start base)

/-- **A commit** shows what the transaction has shown, one version on. -/
theorem state_commit :
    txn.commit.state = { txn.view.state with version := txn.view.state.version + 1 } := rfl

/-- **One change**, of a transaction and of what can be seen of it: both are refused for the same
reason, or both are made with the same answer.

**Proof sketch.** One case for each change; both sides make the same checks. -/
theorem state_change (change : Change) :
    Except.Rel (fun a b => a.1 = b.1 ∧ a.2.view.state = b.2 ∧ a.2.base = txn.base)
      (txn.change change) (txn.view.state.change change) := by
  cases change with
  | allocate pages =>
    rw [WriteTransaction.change, StoreState.change]
    by_cases hzero : pages = 0
    · rw [if_pos hzero, allocate, if_pos hzero]
      exact .error _
    · obtain ⟨next, hallocate, hsame, hpage, hrun⟩ := txn.exists_allocate hzero
      have hversion : next.base.version = txn.base.version := by rw [hsame.base]
      rw [if_neg hzero, hallocate]
      exact .ok ⟨rfl, StoreState.ext hversion hpage (Snapshot.run_state_update hrun)
        (funext hsame.get?), hsame.base⟩
  | writeRun page contents =>
    rw [WriteTransaction.change, StoreState.change, writeRun, ← run_view, Snapshot.run_eq]
    cases hcurrent : txn.view.state.run page with
    | none => exact .error _
    | some current =>
      simp only [Except.ok_bind]
      by_cases hsize : contents.size = current.size
      · rw [if_pos hsize, if_pos hsize]
        exact .ok ⟨rfl, StoreState.ext rfl rfl
          (Snapshot.run_state_update (txn.run_view_insert page contents txn.nextPage))
          (funext fun key => by simp only [Snapshot.state, get?_view]; rfl), rfl⟩
      · rw [if_neg hsize, if_neg hsize]
        exact .error _
  | put key value =>
    exact .ok ⟨rfl, StoreState.ext rfl rfl
      (funext fun page => by simp only [Snapshot.state, run_view_put])
      (Snapshot.value_state_update (txn.get?_view_put key value)), rfl⟩
  | delete key =>
    exact .ok ⟨rfl, StoreState.ext rfl rfl
      (funext fun page => by simp only [Snapshot.state, run_view_delete])
      (Snapshot.value_state_update (txn.get?_view_delete key)), rfl⟩

end WriteTransaction

end Proximity

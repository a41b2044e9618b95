import Proximity.Proofs.Index.Deeds
import Proximity.Proofs.Index.Founding

set_option relaxedAutoImplicit false
set_option autoImplicit false

/-!
# Indexes that differ in one field

Two indexes can resemble each other in all fields but one, in which anything can have happened to
the first of them. They go on resembling each other while the first one goes on in that field, or
while both go on alike. In the second index fewer page runs may have been handed out, so that
containers may lie elsewhere.

## Main definitions

* `Proximity.Snapshot.ResemblesApart` — two snapshots that resemble each other in all fields but
  one.
* `Proximity.Index.Parallel` — two indexes that resemble each other in all fields but one.
* `Proximity.Index.Together` — the sessions of two indexes that go on together.

## Main results

* `Proximity.Index.Parallel.of_spares` — what has gone on in one field.
* `Proximity.Index.Parallel.fits` — what fits for the first index fits for the second.
* `Proximity.Index.Parallel.begin`, `Proximity.Index.Parallel.commit`,
  `Proximity.Index.Parallel.abandon` — write transactions are opened and ended alike.
* `Proximity.Index.Parallel.answersAlike` — callers see no difference in the other fields.
-/

namespace Proximity

variable {apart name : String} {count more : Nat} {ledger ledger' later later' : Ledger}

/-! ## Snapshots -/

namespace Snapshot

/-- **Two snapshots resemble each other in all fields but one**, and these have accepted the same
vectors. The second snapshot has handed out no more pages than the first. -/
structure ResemblesApart (apart : String) (view view' : Snapshot) (ledger ledger' : Ledger) :
    Prop where
  field : ∀ name, name ≠ apart → Resembles name view view'
  accepted : ∀ name, name ≠ apart → ledger' name = ledger name
  version : view'.version = view.version
  nextPage : view'.nextPage ≤ view.nextPage

namespace ResemblesApart

variable {view view' next next' : Snapshot}

/-- Resemblance depends on what is stored, on the page runs and on the page numbers. -/
lemma congr (h : ResemblesApart apart view view' ledger ledger')
    (hget : ∀ key, next.get? key = view.get? key) (hrun : ∀ page, next.run page = view.run page)
    (hget' : ∀ key, next'.get? key = view'.get? key)
    (hrun' : ∀ page, next'.run page = view'.run page) (hversion : next'.version = next.version)
    (hnext : next'.nextPage ≤ next.nextPage) : ResemblesApart apart next next' ledger ledger' where
  field name hne := (h.field name hne).of_keeps (keeps_of_same apart hget hrun)
    (keeps_of_same apart hget' hrun') hne
  accepted := h.accepted
  version := hversion
  nextPage := hnext

/-- Write transactions that have gone on in one field resemble each other in the others.

**Proof sketch.** The field in question is given. All others are kept on either side. -/
lemma of_spares {txn txn' after after' : WriteTransaction}
    (h : ResemblesApart apart txn.view txn'.view ledger ledger')
    (hspares : txn.Spares name count after) (hspares' : txn'.Spares name more after')
    (hledger : ∀ other, other ≠ name → later other = ledger other)
    (hledger' : ∀ other, other ≠ name → later' other = ledger' other)
    (hnext : after'.nextPage ≤ after.nextPage)
    (hown : name ≠ apart →
      Resembles name after.view after'.view ∧ later' name = later name) :
    ResemblesApart apart after.view after'.view later later' where
  field other hne := by
    by_cases hname : other = name
    · subst hname
      exact (hown hne).1
    · exact (h.field other hne).of_keeps hspares.keeps hspares'.keeps hname
  accepted other hne := by
    by_cases hname : other = name
    · subst hname
      exact (hown hne).2
    · rw [hledger other hname, hledger' other hname, h.accepted other hne]
  version := by
    show after'.base.version = after.base.version
    rw [hspares.base, hspares'.base]
    exact h.version
  nextPage := hnext

end ResemblesApart

end Snapshot

/-! ## Indexes -/

namespace Index

open Registration

variable {index index' next next' : Index} {op : Operation} {long : Prop}

/-- **Two indexes resemble each other in all fields but one**, in the committed snapshot and in the
write transaction. -/
structure Parallel (apart : String) (index index' : Index) : Prop where
  left : index.Sound
  right : index'.Sound
  committed : Snapshot.ResemblesApart apart index.store.committed index'.store.committed
    index.committed index'.committed
  writer : Option.Rel (fun txn txn' =>
    Snapshot.ResemblesApart apart txn.view txn'.view index.pending index'.pending)
      index.store.writer index'.store.writer

/-- Two indexes without fields are parallel. -/
lemma parallel_empty (apart : String) : Parallel apart empty empty where
  left := sound_empty
  right := sound_empty
  committed := ⟨fun name _ => Snapshot.sound_empty.resembles_self name, fun _ _ => rfl, rfl,
    UInt64.le_refl _⟩
  writer := .none

/-- Two indexes resemble each other in the write transaction, in one field. -/
def MatchesIn (name : String) (index index' : Index) : Prop :=
  ∀ txn txn', index.store.writer = some txn → index'.store.writer = some txn' →
    txn'.nextPage ≤ txn.nextPage ∧ Snapshot.Resembles name txn.view txn'.view ∧
      index'.pending name = index.pending name

namespace Parallel

variable {txn txn' : WriteTransaction}

/-- The write transaction is open in both indexes or in neither. -/
lemma writer_cases (h : Parallel apart index index') :
    index.store.writer = none ∧ index'.store.writer = none ∨
      ∃ txn txn', index.store.writer = some txn ∧ index'.store.writer = some txn' ∧
        Snapshot.ResemblesApart apart txn.view txn'.view index.pending index'.pending := by
  have hrel := h.writer
  revert hrel
  cases index.store.writer <;> cases index'.store.writer <;> rintro ⟨⟩
  · exact .inl ⟨rfl, rfl⟩
  · exact .inr ⟨_, _, rfl, rfl, ‹_›⟩

/-- The write transactions of parallel indexes resemble each other in all fields but one. -/
lemma resemblesApart (h : Parallel apart index index') (hwriter : index.store.writer = some txn)
    (hwriter' : index'.store.writer = some txn') :
    Snapshot.ResemblesApart apart txn.view txn'.view index.pending index'.pending := by
  have hrel := h.writer
  rw [hwriter, hwriter'] at hrel
  obtain hsame | _ := hrel
  exact hsame

/-- Parallel indexes match in every other field. -/
lemma matchesIn (h : Parallel apart index index') (hne : name ≠ apart) :
    MatchesIn name index index' := by
  intro txn txn' hwriter hwriter'
  have hsame := h.resemblesApart hwriter hwriter'
  exact ⟨hsame.nextPage, hsame.field name hne, hsame.accepted name hne⟩

/-- **Indexes that have gone on in one field** resemble each other in all fields but one, if they do
so in this field.

**Proof sketch.** Nothing has been committed, and a transaction is open where one was. The two
transactions have gone on in the field. -/
theorem of_spares (h : Parallel apart index index') (hspares : index.Spares name count next)
    (hspares' : index'.Spares name more next') (hleft : next.Sound) (hright : next'.Sound)
    (hnext : ∀ txn txn', next.store.writer = some txn → next'.store.writer = some txn' →
      txn'.nextPage ≤ txn.nextPage)
    (hown : name ≠ apart → MatchesIn name next next') : Parallel apart next next' where
  left := hleft
  right := hright
  committed := by
    rw [hspares.committed, hspares'.committed, hspares.accepted, hspares'.accepted]
    exact h.committed
  writer := by
    have hrel := h.writer
    have hleft := hspares.writer
    have hright := hspares'.writer
    revert hrel hleft hright
    cases hbefore : index.store.writer <;> cases hafter : next.store.writer <;>
      cases hbefore' : index'.store.writer <;> cases hafter' : next'.store.writer <;>
      rintro ⟨⟩ ⟨⟩ ⟨⟩
    · exact .none
    · exact .some (Snapshot.ResemblesApart.of_spares ‹_› ‹_› ‹_› hspares.pending hspares'.pending
        (hnext _ _ hafter hafter') fun hne => (hown hne _ _ hafter hafter').2)

end Parallel

/-! ## Sessions -/

/-- **The sessions of two indexes go on together**: none is open, or both are on one field and
resemble each other, or both have failed at the same vector. -/
inductive Together (long : Prop) (name : String) (index index' : Index) : Prop
  /-- No session is open. -/
  | closed (h : index.session = none) (h' : index'.session = none)
  /-- The sessions resemble each other. -/
  | running {session session' : Registration} (h : index.session = some session)
    (h' : index'.session = some session') (hname : session.field.name = name)
    (hadded : index'.added = index.added)
    (hsame : Registration.Resembles index.pending index'.pending index.added session session')
  /-- The sessions have failed. -/
  | failed (hlong : long) {session session' : Registration} (h : index.session = some session)
    (h' : index'.session = some session') (hname : session.field.name = name)
    (hsame : Disabled session session')

namespace Together

/-- Indexes that go on together have no session on another field. -/
lemma attends (h : Together long name index index') :
    index.Attends name ∧ index'.Attends name := by
  cases h with
  | closed h h' => exact ⟨attends_of_closed h name, attends_of_closed h' name⟩
  | running h h' hname _ hsame =>
    refine ⟨fun found hfound => ?_, fun found hfound => ?_⟩
    · rwa [← Option.some.inj (h.symm.trans hfound)]
    · rwa [← Option.some.inj (h'.symm.trans hfound), hsame.field]
  | failed _ h h' hname hsame =>
    refine ⟨fun found hfound => ?_, fun found hfound => ?_⟩
    · rwa [← Option.some.inj (h.symm.trans hfound)]
    · rwa [← Option.some.inj (h'.symm.trans hfound), hsame.field]

/-- A session is open in both indexes or in neither. -/
lemma session_cases (h : Together long name index index') :
    index.session = none ∧ index'.session = none ∨
      ∃ session session', index.session = some session ∧ index'.session = some session' := by
  cases h with
  | closed h h' => exact .inl ⟨h, h'⟩
  | running h h' => exact .inr ⟨_, _, h, h'⟩
  | failed _ h h' => exact .inr ⟨_, _, h, h'⟩

/-- Where the second index has a session, the first one has too. -/
lemma exists_session (h : Together long name index index') {session' : Registration}
    (hsession' : index'.session = some session') : ∃ session, index.session = some session := by
  rcases h.session_cases with ⟨_, hnone⟩ | ⟨session, _, hsession, _⟩
  · rw [hnone] at hsession'
    cases hsession'
  · exact ⟨session, hsession⟩

/-- The write transactions of both indexes are free, or those of neither. -/
lemma free_cases (h : Together long name index index') (hparallel : Parallel apart index index') :
    index.free = none ∧ index'.free = none ∨
      ∃ txn txn', index.free = some txn ∧ index'.free = some txn' := by
  rcases h.session_cases with ⟨h, h'⟩ | ⟨_, _, h, h'⟩
  · rw [free, free, h, h']
    rcases hparallel.writer_cases with hnone | ⟨txn, txn', hwriter, hwriter', _⟩
    · exact .inl hnone
    · exact .inr ⟨txn, txn', hwriter, hwriter'⟩
  · exact .inl ⟨by rw [free, h], by rw [free, h']⟩

end Together

/-- Where a session is open in the first index if one is open in the second, an operation fits for
the second if it does for the first.

**Proof sketch.** One case for each operation. Its limits concern the version, which is the same,
and the next page number, which is not greater in the second index. -/
theorem Parallel.fits (h : Parallel apart index index')
    (hopen : ∀ session', index'.session = some session' → ∃ session, index.session = some session)
    (hfits : op.Fits index) : op.Fits index' := by
  cases op with
  | create name options =>
    refine ⟨hfits.1, fun found hfound => ?_⟩
    rcases h.writer_cases with ⟨_, hnone⟩ | ⟨txn, txn', hwriter, hwriter', hapart⟩
    · rw [hnone] at hfound
      cases hfound
    · obtain rfl := Option.some.inj (hwriter'.symm.trans hfound)
      have hversion : txn'.version = txn.version := hapart.version
      rw [hversion]
      exact hfits.2 txn hwriter
  | register id raw level =>
    refine ⟨fun session' hsession' => ?_, hfits.2⟩
    obtain ⟨session, hsession⟩ := hopen session' hsession'
    have hle := (h.resemblesApart (h.left.session session hsession).1
      (h.right.session session' hsession').1).nextPage
    exact (Nat.add_le_add_right (UInt64.le_iff_toNat_le.mp hle) _).trans (hfits.1 session hsession)
  | _ => trivial

namespace Parallel

/-! ## Write transactions -/

/-- Opening the write transaction. -/
theorem begin (h : Parallel apart index index') :
    Parallel apart (index.step .begin) (index'.step .begin) ∧
      index'.answer .begin = index.answer .begin := by
  have hversion : index'.store.version = index.store.version := h.committed.version
  have hleft : (index.step .begin).Sound := h.left.step trivial
  have hright : (index'.step .begin).Sound := h.right.step trivial
  rcases h.writer_cases with ⟨hwriter, hwriter'⟩ | ⟨txn, txn', hwriter, hwriter', _⟩
  · simp only [step, answer, Store.beginWrite, hwriter, hwriter', hversion] at hleft hright ⊢
    refine ⟨⟨hleft, hright, h.committed, .some ?_⟩, rfl⟩
    exact h.committed.congr (WriteTransaction.get?_start _) (WriteTransaction.run_start _)
      (WriteTransaction.get?_start _) (WriteTransaction.run_start _) h.committed.version
      h.committed.nextPage
  · simp only [step, answer, Store.beginWrite, hwriter, hwriter']
    exact ⟨h, rfl⟩

/-- Committing the write transaction.

**Proof sketch.** If a session is open or no transaction is, nothing happens. Otherwise the commits
have the keys and the runs of their transactions. -/
theorem commit (h : Parallel apart index index') (hclosed : index.session = none)
    (hclosed' : index'.session = none) :
    Parallel apart (index.step .commit) (index'.step .commit) ∧
      index'.answer .commit = index.answer .commit := by
  have htogether : Together False "" index index' := .closed hclosed hclosed'
  rcases htogether.free_cases h with ⟨hfree, hfree'⟩ | ⟨txn, txn', hfree, hfree'⟩
  · simp only [step, whenFree_of_none hfree, whenFree_of_none hfree', answer, hfree, hfree']
    exact ⟨h, trivial⟩
  have hleft : (index.step .commit).Sound := h.left.step trivial
  have hright : (index'.step .commit).Sound := h.right.step trivial
  obtain ⟨_, hwriter⟩ := free_eq_some_iff.mp hfree
  obtain ⟨_, hwriter'⟩ := free_eq_some_iff.mp hfree'
  have hapart := h.resemblesApart hwriter hwriter'
  have hversion : txn'.commit.version = txn.commit.version := congrArg Nat.succ hapart.version
  rw [step_commit hclosed hwriter] at hleft ⊢
  rw [step_commit hclosed' hwriter'] at hright ⊢
  refine ⟨⟨hleft, hright, ?_, .none⟩, by simp only [answer, hfree, hfree', hversion]⟩
  exact hapart.congr (WriteTransaction.get?_commit txn) (WriteTransaction.run_commit txn)
    (WriteTransaction.get?_commit txn') (WriteTransaction.run_commit txn') hversion hapart.nextPage

/-- Abandoning the write transaction. -/
theorem abandon (h : Parallel apart index index') (hclosed : index.session = none)
    (hclosed' : index'.session = none) :
    Parallel apart (index.step .abandon) (index'.step .abandon) := by
  have hleft : (index.step .abandon).Sound := h.left.step trivial
  have hright : (index'.step .abandon).Sound := h.right.step trivial
  have htogether : Together False "" index index' := .closed hclosed hclosed'
  rcases htogether.free_cases h with ⟨hfree, hfree'⟩ | ⟨txn, txn', hfree, hfree'⟩
  · simpa only [step, whenFree_of_none hfree, whenFree_of_none hfree'] using h
  · simp only [step, whenFree_of_some hfree, whenFree_of_some hfree'] at hleft hright ⊢
    exact ⟨hleft, hright, h.committed, .none⟩

/-! ## Callers -/

/-- Callers see no difference in the other fields. -/
theorem answersAlike (h : Parallel apart index index') (hne : name ≠ apart) :
    Snapshot.AnswersAlike name index.store.beginRead index'.store.beginRead ∧
      Option.Rel (fun txn txn' => Snapshot.AnswersAlike name txn.view txn'.view)
        index.store.writer index'.store.writer := by
  refine ⟨(h.committed.field name hne).answersAlike h.left.committed h.right.committed
    (h.committed.accepted name hne), ?_⟩
  rcases h.writer_cases with ⟨hwriter, hwriter'⟩ | ⟨txn, txn', hwriter, hwriter', hapart⟩
  · rw [hwriter, hwriter']
    exact .none
  · rw [hwriter, hwriter']
    exact .some ((hapart.field name hne).answersAlike (h.left.writer txn hwriter)
      (h.right.writer txn' hwriter') (hapart.accepted name hne))

end Parallel

end Index

end Proximity

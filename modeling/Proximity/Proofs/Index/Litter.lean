import Proximity.Proofs.Index.Deeds
import Proximity.Proofs.Registration.Runs

set_option relaxedAutoImplicit false
set_option autoImplicit false

/-!
# What sessions leave behind

Page runs are never taken back. A session hands them out while it is open, and if it ends without a
commit then they stay in the write transaction, and in all that is committed after it, although no
record leads to them. Such runs are recorded here beside the index. There are no others without an
owner: every run that is not left behind by such a session is in one container of one field.

## Main definitions

* `Proximity.Litter`, `Proximity.Litter.step` — the runs that have been left behind.
* `Proximity.Index.Littered` — the states that can be reached, with what has been left behind.
* `Proximity.Operation.GivesUp` — an operation ends a session that does not commit.
* `Proximity.WriteTransaction.Leaves` — what such a session leaves in its transaction.
* `Proximity.Index.Tidy` — the invariant.

## Main results

* `Proximity.Index.Tidy.step` — one operation keeps the invariant.
* `Proximity.Index.Littered.accounts_for_runs` — a run is in one container or has been left behind.
* `Proximity.Index.Reachable.not_forall_owned` — runs are left behind.
-/

namespace Proximity

/-- **The page runs that sessions have left behind**, and the transaction that the open session
started from. -/
structure Litter where
  /-- The runs that are left behind in the latest commit. -/
  committed : Set PageId
  /-- The runs that are left behind in the write transaction. -/
  pending : Set PageId
  /-- The write transaction as it was when the latest session was opened. -/
  opened : WriteTransaction

namespace Litter

/-- Nothing has been left behind. -/
def empty : Litter where
  committed := ∅
  pending := ∅
  opened := .start .empty

/-- A session ends and leaves behind the runs that its transaction has handed out since. -/
def leave (litter : Litter) (txn : WriteTransaction) : Litter :=
  { litter with pending := litter.pending ∪ (txn.view.pages \ litter.opened.view.pages) }

/-- What has been left behind after an operation on an index. -/
def step (litter : Litter) (index : Index) : Operation → Litter
  | .begin =>
    match index.store.beginWrite with
    | .ok _ => { litter with pending := litter.committed }
    | .error _ => litter
  | .start _ _ =>
    match index.free with
    | some txn => { litter with opened := txn }
    | none => litter
  | .finish =>
    match index.session with
    | some session =>
      match session.commit with
      | .ok _ => litter
      | .error _ => litter.leave session.txn
    | none => litter
  | .discard =>
    match index.session with
    | some session => litter.leave session.rollback
    | none => litter
  | .commit =>
    match index.free with
    | some _ => { litter with committed := litter.pending }
    | none => litter
  | .create _ _ | .reseed _ | .register _ _ _ | .abandon => litter

end Litter

/-- An operation ends a session without a commit: it gives the session up, or cannot commit it. -/
def Operation.GivesUp (session : Registration) : Operation → Prop
  | .finish => ∃ e, session.commit = .error e
  | .discard => True
  | _ => False

/-- **What a session leaves in its transaction** if it does not commit: all keys and all runs are as
they were when the session was opened, beside the runs that it has handed out, which hold zeros. The
next page number has changed if there are such runs. -/
structure WriteTransaction.Leaves (opened txn : WriteTransaction) : Prop where
  get? : ∀ key, txn.view.get? key = opened.view.get? key
  run : ∀ page ∈ opened.view.pages, txn.view.run page = opened.view.run page
  blank : ∀ page ∈ txn.view.pages \ opened.view.pages, ∃ pages,
    txn.view.run page = .ok (Run.blank pages)
  nextPage : txn.nextPage = opened.nextPage ↔ txn.view.pages = opened.view.pages

/-- A session that is given up leaves the runs that it has taken. -/
lemma Registration.Since.leaves {session : Registration} {opened : WriteTransaction}
    (h : session.Since opened) : opened.Leaves session.txn where
  get? := h.extends_txn.sameEntries.get?
  run _ hpage := h.run_eq hpage
  blank := h.blank
  nextPage := h.nextPage_eq_iff

namespace Index

/-- **The states that can be reached**, with what has been left behind in them. -/
inductive Littered (allowed : Operation → Prop) : Index → Litter → Prop
  /-- Nothing has happened yet. -/
  | empty : Littered allowed empty .empty
  /-- One more operation. -/
  | step {index : Index} {litter : Litter} (h : Littered allowed index litter) (op : Operation)
      (hop : allowed op) (hfits : op.Fits index) :
      Littered allowed (index.step op) (litter.step index op)

variable {index : Index} {litter : Litter} {allowed : Operation → Prop} {session : Registration}
  {txn : WriteTransaction}

/-- The runs that are left behind are only written down beside what an index does. -/
lemma Littered.reachable (h : Littered allowed index litter) : Reachable allowed index := by
  induction h with
  | empty => exact .empty
  | step _ op hop hfits ih => exact ih.step op hop hfits

/-- Whatever state can be reached, something is left behind in it, or nothing. -/
lemma Reachable.exists_littered (h : Reachable allowed index) :
    ∃ litter, Littered allowed index litter := by
  induction h with
  | empty => exact ⟨.empty, .empty⟩
  | step _ op hop hfits ih =>
    obtain ⟨litter, hlitter⟩ := ih
    exact ⟨_, hlitter.step op hop hfits⟩

/-! ## The invariant -/

/-- **The invariant of page runs**: the strays of a snapshot are what sessions have left behind, and
an open session has only handed out runs since it was opened. -/
structure Tidy (index : Index) (litter : Litter) : Prop where
  arises : (WriteTransaction.start index.store.committed).Arises
  committed : index.store.committed.strays = litter.committed
  free : ∀ txn, index.free = some txn → txn.Arises ∧ txn.view.strays = litter.pending
  session : ∀ session, index.session = some session →
    session.Since litter.opened ∧ litter.opened.view.strays = litter.pending

namespace Tidy

/-- Nothing is left behind in an index without fields. -/
lemma empty : Index.empty.Tidy .empty where
  arises := .first
  committed := by
    ext page
    simp [Snapshot.strays, Snapshot.pages, Snapshot.run, Index.empty, Store.empty, Snapshot.empty,
      Litter.empty]
  free txn h := by cases (free_eq_some_iff.mp h).2
  session session h := by cases h

/-- The write transaction is free, with what has been left behind in it. -/
lemma withFree (h : index.Tidy litter) {next : Index} {pending : Set PageId}
    (hstore : next.store = { index.store with writer := some txn }) (hsession : next.session = none)
    (harises : txn.Arises) (hstrays : txn.view.strays = pending) :
    next.Tidy { litter with pending } where
  arises := by
    rw [hstore]
    exact h.arises
  committed := by
    rw [hstore]
    exact h.committed
  free found hfound := by
    rw [free_eq_some_iff, hstore] at hfound
    obtain rfl := Option.some.inj hfound.2
    exact ⟨harises, hstrays⟩
  session found hfound := by
    rw [hsession] at hfound
    cases hfound

/-- A session is open, with what had been left behind when it was opened. -/
lemma withSession (h : index.Tidy litter) {next : Index} {opened : WriteTransaction}
    (hcommitted : next.store.committed = index.store.committed)
    (hsession : next.session = some session) (hsince : session.Since opened)
    (hstrays : opened.view.strays = litter.pending) : next.Tidy { litter with opened } where
  arises := by
    rw [hcommitted]
    exact h.arises
  committed := by
    rw [hcommitted]
    exact h.committed
  free found hfound := by
    rw [free_eq_some_iff, hsession] at hfound
    cases hfound.1
  session found hfound := by
    obtain rfl := Option.some.inj (hsession.symm.trans hfound)
    exact ⟨hsince, hstrays⟩

/-- Where no session is open it does not matter from where one started. -/
lemma withOpened (h : index.Tidy litter) (hsession : index.session = none)
    (opened : WriteTransaction) : index.Tidy { litter with opened } where
  arises := h.arises
  committed := h.committed
  free := h.free
  session found hfound := by
    rw [hsession] at hfound
    cases hfound

/-- A session that ends without a commit leaves the runs behind that it has handed out. -/
lemma leave (h : index.Tidy litter) (hsession : index.session = some session) {next : Index}
    (hstore : next.store = { index.store with writer := some session.txn })
    (hnone : next.session = none) : next.Tidy (litter.leave session.txn) := by
  obtain ⟨hsince, hstrays⟩ := h.session session hsession
  refine h.withFree hstore hnone hsince.arises_txn ?_
  rw [hsince.strays_eq, hstrays]

/-- A new write transaction has what has been committed.

**Proof sketch.** A transaction that has just been started sees the keys and the runs of its
base. -/
lemma begin (h : index.Tidy litter) {store : Store} {pending : Ledger} (hsound : index.Sound)
    (hbegin : index.store.beginWrite = .ok store) :
    ({ index with store, pending } : Index).Tidy { litter with pending := litter.committed } := by
  unfold Store.beginWrite at hbegin
  cases hwriter : index.store.writer with
  | some txn => simp [hwriter] at hbegin
  | none =>
    simp only [hwriter, Except.ok.injEq] at hbegin
    subst hbegin
    have hsession : index.session = none := by
      by_contra hopen
      obtain ⟨session, hsession⟩ := Option.ne_none_iff_exists'.mp hopen
      rw [(hsound.session session hsession).1] at hwriter
      cases hwriter
    refine h.withFree rfl hsession h.arises ?_
    rw [← h.committed]
    exact Snapshot.strays_congr (WriteTransaction.get?_start _)
      (Snapshot.pages_congr (WriteTransaction.run_start _))

/-- A field that has just been created has no containers.

**Proof sketch.** A creation writes one key, and a field that has no definition owns no run. The
strays are thus the same before and after. -/
lemma create (h : index.Tidy litter) (hsound : index.Sound) (hfree : index.free = some txn)
    {name : String} {options : FieldOptions} {record : FieldRecord} {created : WriteTransaction}
    (hfits : (Operation.create name options).Fits index)
    (hcreate : Catalog.create txn name options = .ok (record, created)) :
    (index.withWriter created).Tidy litter := by
  obtain ⟨hsession, hwriter⟩ := free_eq_some_iff.mp hfree
  obtain ⟨harises, hstrays⟩ := h.free txn hfree
  have hview := hsound.writer txn hwriter
  have hchanges := hview.changes_create hcreate
  have hfind := Snapshot.Sound.find_create hfits.1 (hfits.2 txn hwriter) hcreate
  obtain ⟨_, _, hnone, _, rfl⟩ := Snapshot.Sound.create_eq_ok_iff.mp hcreate
  refine h.withFree rfl hsession (harises.put _ _) ?_
  rw [← hstrays]
  ext page
  have hunowned : ¬txn.view.Owns name page := by
    rintro ⟨field, _, hfound, _⟩
    have hsome := Snapshot.isSome_get?_of_find hfound
    rw [hnone] at hsome
    cases hsome
  rw [hchanges.mem_strays_iff hview hfind,
    Snapshot.pages_congr fun page => txn.run_view_put _ _ page]
  refine and_congr_right fun _ => ⟨fun hothers other howns => ?_, fun hall => ⟨fun other _ =>
    hall other, rfl⟩⟩
  by_cases hne : other = name
  · exact hunowned (hne ▸ howns)
  · exact hothers.1 other hne howns

/-- A session that has just been opened has handed out nothing. -/
lemma start (h : index.Tidy litter) (hsound : index.Sound) (hfree : index.free = some txn)
    {config : Config} {name : String}
    (hstart : Registration.start config txn name = .ok session) :
    ({ index with session := some session, added := [] } : Index).Tidy
      { litter with opened := txn } := by
  obtain ⟨harises, hstrays⟩ := h.free txn hfree
  have hview := hsound.writer txn (free_eq_some_iff.mp hfree).2
  exact h.withSession rfl rfl (Registration.since_of_start harises hview hstart) hstrays

/-- **Registering a vector** hands out runs in the open session.

**Proof sketch.** A session hands out runs, and its transaction is looked at again when it ends. -/
theorem register (h : index.Tidy litter) (hsession : index.session = some session) {id : UInt64}
    {raw : Bytes} {level : Option Nat} (hfits : (Operation.register id raw level).Fits index) :
    (index.register session id raw level).Tidy litter := by
  obtain ⟨hsince, hstrays⟩ := h.session session hsession
  have hnext := hsince.registerAtLevel id raw hfits.2 (hfits.1 session hsession)
  unfold Index.register
  generalize session.registerAtLevel id raw level = result at hnext
  obtain ⟨next, answer⟩ := result
  cases answer with
  | ok _ => exact h.withSession rfl rfl hnext hstrays
  | error e => exact h.withSession rfl rfl hnext hstrays

/-- **Ending a session by a commit** leaves no run behind, unless it cannot be committed.

**Proof sketch.** A session that commits owns the runs that it has handed out, as containers of its
field. One that cannot commit leaves them. -/
theorem finish (h : index.Tidy litter) (hsound : index.Sound)
    (hsession : index.session = some session) :
    (index.finish session).Tidy (litter.step index .finish) := by
  obtain ⟨hwriter, hrunning⟩ := hsound.session session hsession
  obtain ⟨hsince, hstrays⟩ := h.session session hsession
  simp only [Litter.step, hsession, Index.finish]
  cases hcommit : session.commit with
  | error e =>
    refine h.leave hsession ?_ rfl
    rw [← hwriter]
  | ok result =>
    obtain ⟨count, txn⟩ := result
    obtain ⟨hfailure, _⟩ := Registration.exists_of_commit hcommit
    obtain ⟨txn', hcommit', harises, hleft⟩ := hsince.strays_commit (hrunning hfailure)
    obtain ⟨_, rfl⟩ := Prod.mk.inj (Except.ok.inj (hcommit.symm.trans hcommit'))
    exact h.withFree rfl rfl harises (hleft.trans hstrays)

/-- **Committing the write transaction** commits what has been left behind in it.

**Proof sketch.** A commit keeps the keys and the runs of its transaction. -/
theorem commit (h : index.Tidy litter) (hfree : index.free = some txn) :
    ({ index with
        store := { committed := txn.commit, writer := none }
        committed := index.pending } : Index).Tidy { litter with committed := litter.pending } where
  arises := (h.free txn hfree).1.next
  committed := by
    rw [← (h.free txn hfree).2]
    exact Snapshot.strays_congr (WriteTransaction.get?_commit txn)
      (Snapshot.pages_congr (WriteTransaction.run_commit txn))
  free found hfound := by cases (free_eq_some_iff.mp hfound).2
  session found hfound := by
    obtain ⟨hnone, _⟩ := free_eq_some_iff.mp hfree
    rw [show index.session = some found from hfound] at hnone
    cases hnone

/-- **One operation keeps the invariant.**

**Proof sketch.** One case for each operation; only the ends of sessions leave runs. -/
theorem step (h : index.Tidy litter) (hsound : index.Sound) {op : Operation}
    (hfits : op.Fits index) : (index.step op).Tidy (litter.step index op) := by
  cases op with
  | begin =>
    unfold Index.step Litter.step
    cases hbegin : index.store.beginWrite with
    | error e => exact h
    | ok store => exact h.begin hsound hbegin
  | create name options =>
    refine whenFree_cases (P := fun next => next.Tidy litter) h fun txn hsession hwriter => ?_
    cases hcreate : Catalog.create txn name options with
    | error e => exact h
    | ok created =>
      exact h.create hsound (free_eq_some_iff.mpr ⟨hsession, hwriter⟩) hfits hcreate
  | start config name =>
    cases hfree : index.free with
    | none => simpa only [Index.step, whenFree_of_none hfree, Litter.step, hfree] using h
    | some txn =>
      simp only [Index.step, whenFree_of_some hfree, Litter.step, hfree]
      cases hstart : Registration.start config txn name with
      | error e => exact h.withOpened (free_eq_some_iff.mp hfree).1 txn
      | ok session => exact h.start hsound hfree hstart
  | reseed seed =>
    refine whenOpen_cases (P := fun next => next.Tidy litter) h fun session hsession => ?_
    obtain ⟨hsince, hstrays⟩ := h.session session hsession
    rw [Registration.withSeed]
    exact h.withSession rfl rfl (hsince.withGenerator _) hstrays
  | register id raw level =>
    exact whenOpen_cases (P := fun next => next.Tidy litter) h fun session hsession =>
      h.register hsession hfits
  | finish =>
    cases hsession : index.session with
    | none => simpa only [Index.step, whenOpen, Litter.step, hsession] using h
    | some session =>
      simpa only [Index.step, whenOpen, hsession] using h.finish hsound hsession
  | discard =>
    cases hsession : index.session with
    | none => simpa only [Index.step, whenOpen, Litter.step, hsession] using h
    | some session =>
      simp only [Index.step, whenOpen, Litter.step, hsession]
      exact h.leave hsession rfl rfl
  | commit =>
    cases hfree : index.free with
    | none => simpa only [Index.step, whenFree_of_none hfree, Litter.step, hfree] using h
    | some txn =>
      obtain ⟨hsession, hwriter⟩ := free_eq_some_iff.mp hfree
      rw [step_commit hsession hwriter]
      simp only [Litter.step, hfree]
      exact h.commit hfree
  | abandon =>
    refine whenFree_cases (P := fun next => next.Tidy litter) h fun txn hsession _ => ?_
    refine ⟨h.arises, h.committed, fun found hfound => ?_, fun found hfound => ?_⟩
    · cases (free_eq_some_iff.mp hfound).2
    · rw [show index.session = some found from hfound] at hsession
      cases hsession

end Tidy

/-! ## Any number of operations -/

namespace Littered

/-- **The invariant holds in every state that can be reached.** -/
theorem tidy (h : Littered allowed index litter) : index.Tidy litter := by
  induction h with
  | empty => exact .empty
  | step hbefore op _ hfits ih => exact ih.step hbefore.reachable.sound hfits

/-- **Every page run is in one container of one field, unless a session has left it behind.** In
every state that can be reached, a run of the latest commit belongs to exactly one field, which has
a record of it, or it has been handed out in a session that did not commit, and then it belongs to
no field. A session that ends without a commit leaves all keys and all runs as they were when it was
opened. What it has handed out is left behind, filled with zeros, and the next page number stays the
same only if that is nothing.

**Proof sketch.** The graph of a session that has not failed has a container in each run that the
session has handed out, so a commit writes a record for each of them. A session that does not commit
writes nothing. -/
theorem accounts_for_runs (h : Littered allowed index litter) :
    (∀ page ∈ index.store.committed.pages,
      (page ∉ litter.committed ∧ ∃! name, index.store.committed.Owns name page) ∨
        (page ∈ litter.committed ∧ ∀ name, ¬index.store.committed.Owns name page)) ∧
      litter.committed ⊆ index.store.committed.pages ∧
      ∀ session op, index.session = some session → op.GivesUp session →
        ∃ txn, (index.step op).store.writer = some txn ∧ litter.opened.Leaves txn ∧
          litter.step index op = litter.leave txn := by
  have htidy := h.tidy
  have hsound := h.reachable.sound
  rw [← htidy.committed]
  refine ⟨fun page hpage => ?_, fun page hpage => hpage.1, fun session op hsession hgives => ?_⟩
  · by_cases hstray : page ∈ index.store.committed.strays
    · exact .inr ⟨hstray, hstray.2⟩
    · exact .inl ⟨hstray, hsound.committed.existsUnique_owns hpage hstray⟩
  obtain ⟨hwriter, _⟩ := hsound.session session hsession
  refine ⟨session.txn, ?_, (htidy.session session hsession).1.leaves, ?_⟩
  · cases op with
    | finish =>
      obtain ⟨e, hcommit⟩ := hgives
      simpa only [Index.step, whenOpen, hsession, Index.finish, hcommit] using hwriter
    | discard =>
      simp only [Index.step, whenOpen, hsession]
      rfl
    | _ => exact hgives.elim
  · cases op with
    | finish =>
      obtain ⟨e, hcommit⟩ := hgives
      simp only [Litter.step, hsession, hcommit]
    | discard =>
      simp only [Litter.step, hsession]
      rfl
    | _ => exact hgives.elim

end Littered

namespace Reachable

/-- **A run is left behind** where the first vector of a field has been registered in a session that
is given up.

**Proof sketch.** The first vector of a field goes into a container on a new run. The session is
given up, so that the field has no record of the container, while the transaction keeps the run. -/
theorem exists_run_discarded : ∃ index page, Reachable Operation.IsShort index ∧
    page ∈ index.store.committed.pages ∧ ∀ name, ¬index.store.committed.Owns name page := by
  obtain ⟨hreachable, session, hsession, hadded, hpending, hname, hoptions⟩ :=
    @exists_run_filling "v" (.ofShape 2 1) (by decide)
      (FieldOptions.validate_eq_ok_iff.mp (by decide)) ⟨by decide, by decide, by decide⟩ .zero
      (by decide) rfl (by decide) (by decide) none (by simp)
  generalize run (Operation.filling "v" (.ofShape 2 1) .zero none) = index at *
  have hrunning := hreachable.running hsession
  obtain ⟨base, contents, _, _, hsound, hbacked, _⟩ := hrunning.graph
  rw [hadded] at hsound
  obtain ⟨node, _, container, _, _, hcontainer, _⟩ :=
    hsound.stores (List.mem_append_right _ (List.mem_singleton_self Accepted.zero))
  obtain ⟨_, pagerun, hrun, _⟩ := hbacked _ container hcontainer
  have hgone : index.step .discard = { index.withWriter session.txn with session := none } := by
    simp only [Index.step, whenOpen, hsession]
    rfl
  have hended := (hreachable.step .discard trivial trivial).step .commit trivial trivial
  have hcommitted : ((index.step .discard).step .commit).store.committed = session.txn.commit ∧
      ((index.step .discard).step .commit).committed = fun _ => [] := by
    rw [hgone, step_commit rfl rfl]
    exact ⟨rfl, hpending⟩
  refine ⟨_, node.location.container, hended, ?_, fun name => ?_⟩
  · rw [hcommitted.1]
    exact ⟨pagerun, hrun⟩
  · refine hended.sound.committed.not_owns_of_nil ?_
    rw [hcommitted.2]

/-- **Runs are left behind**: not every run of a commit belongs to a field. -/
theorem not_forall_owned : ¬∀ index, Reachable Operation.IsShort index →
    ∀ page ∈ index.store.committed.pages, ∃! name, index.store.committed.Owns name page := by
  intro hall
  obtain ⟨index, page, hreachable, hpage, hnone⟩ := exists_run_discarded
  obtain ⟨name, howns, _⟩ := hall index hreachable page hpage
  exact hnone name howns

/-- It is recorded as left behind. -/
theorem exists_littered_discarded : ∃ index litter page, Littered Operation.IsShort index litter ∧
    page ∈ index.store.committed.pages ∧ page ∈ litter.committed := by
  obtain ⟨index, page, hreachable, hpage, hnone⟩ := exists_run_discarded
  obtain ⟨litter, hlitter⟩ := hreachable.exists_littered
  refine ⟨index, litter, page, hlitter, hpage, ?_⟩
  rcases hlitter.accounts_for_runs.1 page hpage with ⟨_, name, howns, _⟩ | ⟨hleft, _⟩
  · exact absurd howns (hnone name)
  · exact hleft

end Reachable

end Index

end Proximity

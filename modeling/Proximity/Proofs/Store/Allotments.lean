import Proximity.Proofs.Store.History

set_option relaxedAutoImplicit false
set_option autoImplicit false

/-!
# Page runs never overlap

Nothing in a store says how many pages a run was handed out with: a run is its contents, under its
first page. Which runs have been handed out is recorded here from the requests and the answers
alone. The record then says what every transaction sees: one run for each entry, of as many bytes as
the entry has pages, on pages that no other entry has and that lie below the next page.

## Main definitions

* `Proximity.Allotment` — a run that has been handed out, and its page numbers.
* `Proximity.Snapshot.Allotted` — the runs of a view are those of a record.
* `Proximity.Allotments` — what has been handed out, for the commits, the writer and each reader.
* `Proximity.Service.recorded` — the record of some requests and the answers to them.
* `Proximity.Service.numbersSuffice` — no page number that a request asks for overflows.

## Main results

* `Proximity.Snapshot.Allotted.allocate`, `Proximity.Snapshot.Allotted.writeRun` — one change.
* `Proximity.Service.Tallies.step`, `Proximity.Service.Tallies.serve` — requests keep the record.
* `Proximity.Service.runs_apart` — what every transaction sees, and what is never handed out again.
-/

namespace Proximity

/-! ## Records of runs -/

/-- A run that has been handed out. -/
structure Allotment where
  /-- The first page. -/
  page : PageId
  /-- The number of pages. -/
  pages : Nat
deriving DecidableEq

namespace Allotment

/-- The number of the first page. -/
def first (allotment : Allotment) : Nat :=
  allotment.page.number.toNat

/-- The number that follows that of the last page. -/
def limit (allotment : Allotment) : Nat :=
  allotment.first + allotment.pages

/-- The page with this number belongs to the run. -/
def HasPage (allotment : Allotment) (number : Nat) : Prop :=
  allotment.first ≤ number ∧ number < allotment.limit

/-- No page belongs to both runs. -/
def Apart (a b : Allotment) : Prop :=
  ∀ number, ¬ (a.HasPage number ∧ b.HasPage number)

/-- A run that ends before another begins has no page in common with it. -/
lemma apart_of_limit_le {a b : Allotment} (h : a.limit ≤ b.first) : a.Apart b := by
  rintro number ⟨⟨_, hlt⟩, ⟨hle, _⟩⟩
  omega

end Allotment

/-- **The runs of a view are those of a record**: they hold as many bytes as the record has pages
for them, and their pages are apart from each other and below the next page. -/
structure Snapshot.Allotted (view : Snapshot) (allotments : List Allotment) : Prop where
  run_iff : ∀ page, (∃ run, view.run page = .ok run) ↔ ∃ a ∈ allotments, a.page = page
  size : ∀ a ∈ allotments, ∀ run, view.run a.page = .ok run → run.size = a.pages * pageSize
  pos : ∀ a ∈ allotments, 0 < a.pages
  apart : allotments.Pairwise Allotment.Apart
  below : ∀ a ∈ allotments, a.limit ≤ view.nextPage.toNat

namespace Snapshot.Allotted

variable {view next : Snapshot} {allotments : List Allotment}

/-- No page of an empty store has been allotted. -/
lemma empty : Snapshot.empty.Allotted [] where
  run_iff page := by simp [Snapshot.empty, Snapshot.run]
  size := by simp
  pos := by simp
  apart := List.Pairwise.nil
  below := by simp

/-- A view with the same runs and the same next page has the same record. -/
lemma congr (h : view.Allotted allotments) (hrun : ∀ page, next.run page = view.run page)
    (hnext : next.nextPage = view.nextPage) : next.Allotted allotments where
  run_iff page := by rw [hrun, h.run_iff]
  size a ha run hcontents := h.size a ha run ((hrun a.page).symm.trans hcontents)
  pos := h.pos
  apart := h.apart
  below a ha := hnext ▸ h.below a ha

/-- No run of the record starts at the next page. -/
lemma page_ne (h : view.Allotted allotments) {a : Allotment} (ha : a ∈ allotments) :
    a.page ≠ ⟨view.nextPage⟩ := by
  intro hpage
  have hpos := h.pos a ha
  have hbelow := h.below a ha
  simp only [Allotment.limit, Allotment.first, hpage] at hbelow
  omega

/-- **A run that is handed out** is apart from all runs of the record.

**Proof sketch.** The new run begins at the next page, behind the ends of all others. -/
theorem allocate (h : view.Allotted allotments) {pages : Nat} (hpos : 0 < pages)
    (hsuffice : view.nextPage.toNat + pages < UInt64.size)
    (hnext : next.nextPage = view.nextPage + UInt64.ofNat pages)
    (hrun : ∀ page, next.run page =
      if ⟨view.nextPage⟩ = page then .ok (Run.blank pages) else view.run page) :
    next.Allotted (allotments ++ [⟨⟨view.nextPage⟩, pages⟩]) := by
  have hsmall : pages < UInt64.size := by omega
  have hnumber : next.nextPage.toNat = view.nextPage.toNat + pages := by
    rw [hnext, UInt64.toNat_add, UInt64.toNat_ofNat_of_lt' hsmall]
    exact Nat.mod_eq_of_lt hsuffice
  refine ⟨fun page => ?_, ?_, ?_, ?_, ?_⟩
  · simp only [hrun, List.mem_append, List.mem_singleton, or_and_right, exists_or,
      exists_eq_left]
    split
    · next heq => simp [heq]
    · next hne => simp [h.run_iff, hne]
  · intro a ha run hcontents
    rw [hrun] at hcontents
    rcases List.mem_append.mp ha with ha | ha
    · rw [if_neg (h.page_ne ha).symm] at hcontents
      exact h.size a ha run hcontents
    · obtain rfl := List.mem_singleton.mp ha
      rw [if_pos rfl] at hcontents
      rw [← Except.ok.inj hcontents]
      exact Array.size_replicate
  · intro a ha
    rcases List.mem_append.mp ha with ha | ha
    · exact h.pos a ha
    · obtain rfl := List.mem_singleton.mp ha
      exact hpos
  · refine List.pairwise_append.mpr ⟨h.apart, List.pairwise_singleton _ _, fun a ha b hb => ?_⟩
    obtain rfl := List.mem_singleton.mp hb
    exact Allotment.apart_of_limit_le (h.below a ha)
  · intro a ha
    rw [hnumber]
    rcases List.mem_append.mp ha with ha | ha
    · exact (h.below a ha).trans (Nat.le_add_right _ _)
    · obtain rfl := List.mem_singleton.mp ha
      exact Nat.le_refl _

/-- **A run that is replaced** keeps its length.

**Proof sketch.** The same runs exist, with the same lengths. -/
theorem writeRun (h : view.Allotted allotments) {page : PageId} {current contents : Run}
    (hcurrent : view.run page = .ok current) (hsize : contents.size = current.size)
    (hnext : next.nextPage = view.nextPage)
    (hrun : ∀ other, next.run other = if page = other then .ok contents else view.run other) :
    next.Allotted allotments where
  run_iff other := by
    rw [← h.run_iff, hrun]
    split
    · next heq =>
      rw [← heq, hcurrent]
      simp
    · rfl
  size a ha run hcontents := by
    rw [hrun] at hcontents
    split at hcontents
    · next heq =>
      rw [← Except.ok.inj hcontents, hsize]
      exact h.size a ha current (heq ▸ hcurrent)
    · exact h.size a ha run hcontents
  pos := h.pos
  apart := h.apart
  below a ha := hnext ▸ h.below a ha

end Snapshot.Allotted

/-! ## What requests hand out -/

/-- What has been handed out: for the latest commit, with the open write transaction, and to what
each reader has been opened on. -/
structure Allotments where
  /-- The runs of the latest commit. -/
  committed : List Allotment
  /-- The runs of the write transaction that was opened last. -/
  draft : List Allotment
  /-- The runs that a reader sees. -/
  readers : Nat → List Allotment

namespace Allotments

/-- Nothing has been handed out. -/
def empty : Allotments where
  committed := []
  draft := []
  readers _ := []

/-- The record after one more request that was answered so. -/
def note (allotments : Allotments) : StoreRequest → StoreReply → Allotments
  | .beginRead reader, _ =>
    { allotments with
      readers := Function.update allotments.readers reader allotments.committed }
  | .beginWrite, .done => { allotments with draft := allotments.committed }
  | .change (.allocate pages), .page page =>
    { allotments with draft := allotments.draft ++ [⟨page, pages⟩] }
  | .commit, .version _ => { allotments with committed := allotments.draft }
  | _, _ => allotments

end Allotments

namespace Service

variable {service : Service} {allotments : Allotments}

/-- The record of some requests and the answers to them, which continues another. -/
def recorded (service : Service) (before : Allotments) : List StoreRequest → Allotments
  | [] => before
  | request :: requests =>
    (service.step request).1.recorded (before.note request (service.step request).2) requests

/-- Whether page numbers suffice for a request: the next page after the run that it asks for still
has a number. -/
def numbersSuffice (service : Service) : StoreRequest → Bool
  | .change (.allocate pages) =>
    match service.store.writer with
    | some txn => txn.nextPage.toNat + pages < UInt64.size
    | none => true
  | _ => true

/-- Whether page numbers suffice for some requests. -/
def numbersSufficeAll (service : Service) : List StoreRequest → Bool
  | [] => true
  | request :: requests =>
    service.numbersSuffice request && (service.step request).1.numbersSufficeAll requests

/-- What is recorded of requests, and then of further ones. -/
lemma recorded_append (service : Service) (before : Allotments)
    (requests more : List StoreRequest) :
    service.recorded before (requests ++ more) =
      (service.serve requests).1.recorded (service.recorded before requests) more := by
  induction requests generalizing service before with
  | nil => rfl
  | cons request requests ih => exact ih _ _

/-- The page numbers suffice for requests and for further ones if they suffice for both in turn. -/
lemma numbersSufficeAll_append (service : Service) (requests more : List StoreRequest) :
    service.numbersSufficeAll (requests ++ more) =
      (service.numbersSufficeAll requests &&
        (service.serve requests).1.numbersSufficeAll more) := by
  induction requests generalizing service with
  | nil => rfl
  | cons request requests ih =>
    simp only [List.cons_append, numbersSufficeAll, ih, Bool.and_assoc]
    rfl

/-! ## The record is kept -/

/-- **A record says what all transactions see**: readers and the latest commit the runs that were
committed, and the open write transaction its own runs behind those. -/
structure Tallies (service : Service) (allotments : Allotments) : Prop where
  committed : service.store.committed.Allotted allotments.committed
  writer : ∀ txn, service.store.writer = some txn →
    txn.view.Allotted allotments.draft ∧ allotments.committed <+: allotments.draft
  readers : ∀ reader snapshot, service.readers reader = some snapshot →
    snapshot.Allotted (allotments.readers reader)

namespace Tallies

/-- The record of a store that has served nothing. -/
lemma empty : Service.empty.Tallies .empty where
  committed := .empty
  writer _ hwriter := by cases hwriter
  readers _ _ hreader := by cases hreader

/-- A change adds a run to the record of the write transaction, or leaves it.

**Proof sketch.** One case for each change: handing out a run adds it to the record, replacing one
keeps it, and writing a key concerns no run. -/
lemma change (h : service.Tallies allotments) {change : Change}
    (hsuffice : service.numbersSuffice (.change change) = true) :
    (service.step (.change change)).1.Tallies
      (allotments.note (.change change) (service.step (.change change)).2) := by
  simp only [step]
  cases hwriter : service.store.writer with
  | none => cases change <;> exact h
  | some txn =>
    obtain ⟨hdraft, hstays⟩ := h.writer txn hwriter
    -- what is left to show once the record of the write transaction is known
    have hmade : ∀ {next : WriteTransaction} {draft : List Allotment}, next.view.Allotted draft →
        allotments.draft <+: draft →
        Tallies { service with store := { service.store with writer := some next } }
          { allotments with draft } := fun hnext hlonger =>
      ⟨h.committed, fun other hother => Option.some.inj hother ▸ ⟨hnext, hstays.trans hlonger⟩,
        h.readers⟩
    cases change with
    | allocate pages =>
      rcases Nat.eq_zero_or_pos pages with rfl | hpos
      · exact h
      · obtain ⟨next, hallocate, _, hnext, hrun⟩ := txn.exists_allocate (Nat.ne_of_gt hpos)
        simp only [numbersSuffice, hwriter, decide_eq_true_eq] at hsuffice
        simp only [WriteTransaction.change, hallocate, Except.ok_bind, Except.pure_eq_ok]
        exact hmade (hdraft.allocate hpos hsuffice hnext hrun) (List.prefix_append _ _)
    | writeRun page contents =>
      cases hwrite : txn.writeRun page contents with
      | error cause =>
        simp only [WriteTransaction.change, hwrite, Except.error_bind]
        exact h
      | ok next =>
        obtain ⟨current, hcurrent, hsize, hnext, hrun⟩ := WriteTransaction.exists_of_writeRun hwrite
        simp only [WriteTransaction.change, hwrite, Except.ok_bind, Except.pure_eq_ok]
        exact hmade (hdraft.writeRun hcurrent hsize hnext hrun) (List.prefix_refl _)
    | put key value =>
      exact hmade (hdraft.congr (txn.run_view_put key value) rfl) (List.prefix_refl _)
    | delete key =>
      exact hmade (hdraft.congr (txn.run_view_delete key) rfl) (List.prefix_refl _)

/-- **One request** keeps the record, and what was committed stays committed.

**Proof sketch.** One case for each request. A commit makes the record of the write transaction the
committed one, which it continues. -/
theorem step (h : service.Tallies allotments) {request : StoreRequest}
    (hsuffice : service.numbersSuffice request = true) :
    (service.step request).1.Tallies (allotments.note request (service.step request).2) ∧
      allotments.committed <+: (allotments.note request (service.step request).2).committed := by
  cases request with
  | beginRead reader =>
    refine ⟨⟨h.committed, h.writer, fun other snapshot hother => ?_⟩, List.prefix_refl _⟩
    simp only [Service.step, Allotments.note, Function.update_apply] at hother ⊢
    split_ifs at hother ⊢
    · rw [← Option.some.inj hother]
      exact h.committed
    · exact h.readers other snapshot hother
  | endRead reader =>
    refine ⟨⟨h.committed, h.writer, fun other snapshot hother => ?_⟩, List.prefix_refl _⟩
    simp only [Service.step, Function.update_apply] at hother
    split_ifs at hother
    exact h.readers other snapshot hother
  | beginWrite =>
    simp only [Service.step, Store.beginWrite]
    cases hwriter : service.store.writer with
    | some txn => exact ⟨h, List.prefix_refl _⟩
    | none =>
      refine ⟨⟨h.committed, fun txn htxn => ?_, h.readers⟩, List.prefix_refl _⟩
      rw [← Option.some.inj htxn]
      exact ⟨h.committed.congr (WriteTransaction.run_start _) rfl, List.prefix_refl _⟩
  | change change =>
    refine ⟨h.change hsuffice, ?_⟩
    cases change <;> cases (service.step _).2 <;> exact List.prefix_refl _
  | askWriter question =>
    simp only [Service.step]
    cases service.store.writer <;> exact ⟨h, List.prefix_refl _⟩
  | askReader reader question =>
    rw [step_askReader]
    exact ⟨h, List.prefix_refl _⟩
  | commit =>
    simp only [Service.step, Store.commit?]
    cases hwriter : service.store.writer with
    | none => exact ⟨h, List.prefix_refl _⟩
    | some txn =>
      obtain ⟨hdraft, hstays⟩ := h.writer txn hwriter
      exact ⟨⟨hdraft.congr txn.run_commit rfl, fun _ hnone => (by cases hnone), h.readers⟩, hstays⟩
  | rollback =>
    simp only [Service.step]
    cases service.store.writer with
    | none => exact ⟨h, List.prefix_refl _⟩
    | some txn =>
      exact ⟨⟨h.committed, fun _ hnone => (by cases hnone), h.readers⟩, List.prefix_refl _⟩

/-- **Any requests** keep the record, and what was committed stays committed. -/
theorem serve (h : service.Tallies allotments) {requests : List StoreRequest}
    (hsuffice : service.numbersSufficeAll requests = true) :
    (service.serve requests).1.Tallies (service.recorded allotments requests) ∧
      allotments.committed <+: (service.recorded allotments requests).committed := by
  induction requests generalizing service allotments with
  | nil => exact ⟨h, List.prefix_refl _⟩
  | cons request requests ih =>
    rw [numbersSufficeAll, Bool.and_eq_true] at hsuffice
    obtain ⟨hnext, hstays⟩ := h.step hsuffice.1
    obtain ⟨hlast, hstays'⟩ := ih hnext hsuffice.2
    exact ⟨hlast, hstays.trans hstays'⟩

/-- What is handed out is apart from all that has been committed.

**Proof sketch.** The committed runs are in the record of the write transaction, hence they end
below the next page. -/
lemma apart_of_page (h : service.Tallies allotments) {a : Allotment}
    (ha : a ∈ allotments.committed) {pages : Nat} {page : PageId}
    (hpage : (service.step (.change (.allocate pages))).2 = .page page) :
    a.Apart ⟨page, pages⟩ := by
  simp only [Service.step] at hpage
  cases hwriter : service.store.writer with
  | none => simp [hwriter] at hpage
  | some txn =>
    obtain ⟨hdraft, hstays⟩ := h.writer txn hwriter
    simp only [hwriter, WriteTransaction.change, WriteTransaction.allocate] at hpage
    split at hpage
    · next hok =>
      split at hok
      · cases hok
      · obtain ⟨rfl, _⟩ := Prod.mk.inj (Except.ok.inj hok)
        rw [← StoreReply.page.inj hpage]
        exact Allotment.apart_of_limit_le (hdraft.below a (hstays.subset ha))
    · cases hpage

end Tallies

/-- A change that is refused leaves the store and all its transactions as they are.

**Proof sketch.** A refused change gives no new transaction. -/
lemma step_of_refused {change : Change} {cause : StoreError}
    (h : (service.step (.change change)).2 = .refused cause) :
    (service.step (.change change)).1 = service := by
  simp only [step] at h ⊢
  cases hwriter : service.store.writer with
  | none => rfl
  | some txn =>
    simp only [hwriter] at h ⊢
    cases hchange : txn.change change with
    | error e => rfl
    | ok made =>
      simp only [hchange] at h
      cases change with
      | allocate pages =>
        obtain ⟨_, _, hmade⟩ := Except.bind_eq_ok_iff.mp hchange
        rw [← Except.ok.inj hmade] at h
        cases h
      | writeRun page contents =>
        obtain ⟨_, _, hmade⟩ := Except.bind_eq_ok_iff.mp hchange
        rw [← Except.ok.inj hmade] at h
        cases h
      | put key value =>
        rw [← Except.ok.inj hchange] at h
        cases h
      | delete key =>
        rw [← Except.ok.inj hchange] at h
        cases h

/-- **Page runs never overlap and never change their length.** After any requests for which page
numbers suffice:

* every run that a transaction sees has been handed out and holds as many bytes as it was handed out
  with pages, and the pages of all of them are apart and below the next page;
* what had been committed at any time before is still committed, and a run that is handed out now
  has no page of it;
* a change that is refused changes nothing.

**Proof sketch.** By induction on the requests the record is kept, and the committed one only
grows. -/
theorem runs_apart (requests : List StoreRequest)
    (hsuffice : empty.numbersSufficeAll requests = true) :
    (empty.serve requests).1.Tallies (empty.recorded .empty requests) ∧
    (∀ earlier later, requests = earlier ++ later →
      ∀ a ∈ (empty.recorded .empty earlier).committed,
        a ∈ (empty.recorded .empty requests).committed ∧
        ∀ pages page, ((empty.serve requests).1.step (.change (.allocate pages))).2 = .page page →
          a.Apart ⟨page, pages⟩) ∧
    ∀ change cause, ((empty.serve requests).1.step (.change change)).2 = .refused cause →
      ((empty.serve requests).1.step (.change change)).1 = (empty.serve requests).1 := by
  obtain ⟨htallies, _⟩ := Tallies.empty.serve hsuffice
  refine ⟨htallies, ?_, fun change cause hrefused => step_of_refused hrefused⟩
  rintro earlier later rfl a ha
  rw [numbersSufficeAll_append, Bool.and_eq_true] at hsuffice
  obtain ⟨hearlier, _⟩ := Tallies.empty.serve hsuffice.1
  obtain ⟨_, hstays⟩ := hearlier.serve hsuffice.2
  have hkept : a ∈ (empty.recorded .empty (earlier ++ later)).committed := by
    rw [recorded_append]
    exact hstays.subset ha
  exact ⟨hkept, fun pages page hpage => htallies.apart_of_page hkept hpage⟩

/-- Two runs are committed, a reader is opened, one run is given up and another one handed out. -/
def allotting : List StoreRequest :=
  [.beginWrite, .change (.allocate 2), .change (.allocate 1), .commit, .beginRead 0,
    .beginWrite, .change (.allocate 3), .rollback, .beginWrite, .change (.allocate 1)]

/-- The run that was given up has left its pages to the next one, and two runs are committed. -/
theorem runs_apart_allotting :
    empty.numbersSufficeAll allotting = true ∧
    (empty.recorded .empty allotting).committed = [⟨⟨0⟩, 2⟩, ⟨⟨2⟩, 1⟩] ∧
    (empty.serve allotting).1.store.committed.Allotted [⟨⟨0⟩, 2⟩, ⟨⟨2⟩, 1⟩] ∧
    (∃ txn, (empty.serve allotting).1.store.writer = some txn ∧
      txn.view.Allotted [⟨⟨0⟩, 2⟩, ⟨⟨2⟩, 1⟩, ⟨⟨3⟩, 1⟩]) ∧
    Allotment.Apart ⟨⟨0⟩, 2⟩ ⟨⟨4⟩, 5⟩ := by
  have hsuffice : empty.numbersSufficeAll allotting = true := rfl
  obtain ⟨htallies, hagain, _⟩ := runs_apart allotting hsuffice
  obtain ⟨txn, htxn⟩ : ∃ txn, (empty.serve allotting).1.store.writer = some txn := ⟨_, rfl⟩
  exact ⟨hsuffice, rfl, htallies.committed, ⟨txn, htxn, (htallies.writer txn htxn).1⟩,
    (hagain (allotting.take 4) (allotting.drop 4) rfl ⟨⟨0⟩, 2⟩ (.head _)).2 5 ⟨4⟩ rfl⟩

end Service

end Proximity

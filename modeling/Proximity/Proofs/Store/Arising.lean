import Proximity.Proofs.Except
import Proximity.Proofs.Store.View

set_option relaxedAutoImplicit false
set_option autoImplicit false

/-!
# Write transactions that can arise

Any changes can be made to the key space and to the page runs of a store, by the index or past it.
What always holds is that a run which exists has been handed out, so a run that is handed out later
is a new one.

## Main definitions

* `Proximity.WriteTransaction.Arises` — what changes of any kind can lead to.

## Main results

* `Proximity.WriteTransaction.exists_of_writeRun` — what replacing a run has done.
* `Proximity.WriteTransaction.Arises.number_lt_nextPage` — runs that exist have been handed out.
-/

namespace Proximity.WriteTransaction

variable {txn txn' : WriteTransaction} {page : PageId} {contents : Run}

/-- **The write transactions that can arise** from an empty store by changes of any kind, as long as
no page number overflows. -/
inductive Arises : WriteTransaction → Prop
  /-- Nothing has been committed yet. -/
  | first : Arises (.start .empty)
  /-- A transaction on what another has committed. -/
  | next {txn : WriteTransaction} (h : Arises txn) : Arises (.start txn.commit)
  /-- One more run. -/
  | allocate {txn txn' : WriteTransaction} {pages : Nat} {page : PageId} (h : Arises txn)
      (hallocate : txn.allocate pages = .ok (page, txn')) (hlt : txn.nextPage < txn'.nextPage) :
      Arises txn'
  /-- Other contents of a run. -/
  | writeRun {txn txn' : WriteTransaction} {page : PageId} {contents : Run} (h : Arises txn)
      (hwrite : txn.writeRun page contents = .ok txn') : Arises txn'
  /-- A value under a key. -/
  | put {txn : WriteTransaction} (h : Arises txn) (key value : Bytes) : Arises (txn.put key value)
  /-- No value under a key. -/
  | delete {txn : WriteTransaction} (h : Arises txn) (key : Bytes) : Arises (txn.delete key)

/-- Deleting a key leaves the page runs as they are. -/
@[simp]
lemma run_view_delete (txn : WriteTransaction) (key : Bytes) (page : PageId) :
    (txn.delete key).view.run page = txn.view.run page := by
  rw [run_view, run_view]
  rfl

/-- **A run that has been replaced** was there before, with the same length.

**Proof sketch.** The run is looked up, and its length is compared. -/
theorem exists_of_writeRun (h : txn.writeRun page contents = .ok txn') :
    ∃ current, txn.view.run page = .ok current ∧ contents.size = current.size ∧
      txn'.nextPage = txn.nextPage ∧
      ∀ other, txn'.view.run other = if page = other then .ok contents else txn.view.run other := by
  obtain ⟨current, hcurrent, h⟩ := Except.bind_eq_ok_iff.mp h
  rw [← run_view] at hcurrent
  split at h
  · next hsize =>
    refine ⟨current, hcurrent, hsize, ?_⟩
    rw [← Except.ok.inj h]
    exact ⟨rfl, txn.run_view_insert page contents txn.nextPage⟩
  · cases h

/-- **A run that exists has been handed out.**

**Proof sketch.** Induction on how the transaction has arisen. Only handing out a run adds one,
below the next page that there is then. -/
theorem Arises.number_lt_nextPage (h : txn.Arises) {run : Run}
    (hrun : txn.view.run page = .ok run) : page.number < txn.nextPage := by
  induction h generalizing page run with
  | first =>
    rw [run_start] at hrun
    simp [Snapshot.run, Snapshot.empty] at hrun
  | next _ ih =>
    rw [run_start, run_commit] at hrun
    exact ih hrun
  | @allocate txn txn' pages handed _ hallocate hlt ih =>
    have hzero : pages ≠ 0 := by
      rintro rfl
      cases hallocate
    obtain ⟨between, hbetween, _, _, hruns⟩ := txn.exists_allocate hzero
    obtain ⟨_, rfl⟩ := Prod.mk.inj (Except.ok.inj (hallocate.symm.trans hbetween))
    rw [hruns] at hrun
    split at hrun
    · next heq => rwa [← heq]
    · exact UInt64.lt_trans (ih hrun) hlt
  | writeRun _ hwrite ih =>
    obtain ⟨current, hcurrent, _, hnext, hruns⟩ := exists_of_writeRun hwrite
    rw [hnext]
    rw [hruns] at hrun
    split at hrun
    · next heq => exact ih (heq ▸ hcurrent)
    · exact ih hrun
  | put _ key value ih => exact ih (by rwa [run_view_put] at hrun)
  | delete _ key ih => exact ih (by rwa [run_view_delete] at hrun)

end Proximity.WriteTransaction

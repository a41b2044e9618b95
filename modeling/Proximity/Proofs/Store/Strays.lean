import Proximity.Proofs.Index.Persistence
import Proximity.Proofs.Registration.Atomicity

set_option relaxedAutoImplicit false
set_option autoImplicit false

/-!
# Page runs without an owner

The page runs of a snapshot should be those of the containers of its fields. In a sound snapshot
each container of a field has a run, and no two fields share one. What is left are the runs that no
container record leads to: nothing reads them, and nothing will ever hand them out again.

## Main definitions

* `Proximity.Snapshot.pages` — the pages at which runs start.
* `Proximity.Snapshot.Owns` — a field has a container at a page.
* `Proximity.Snapshot.strays` — the runs that belong to no field.

## Main results

* `Proximity.Snapshot.Sound.eq_of_owns` — a run belongs to one field at most.
* `Proximity.Snapshot.Changes.mem_strays_iff` — the strays after a change to one field.
* `Proximity.WriteTransaction.pages_of_allocate` — handing out a run adds a page.
* `Proximity.FieldGraph.pages_of_flush` — writing a graph adds none.
-/

namespace Proximity

/-! ## Snapshots -/

namespace Snapshot

/-- The pages at which the runs of a snapshot start. -/
def pages (view : Snapshot) : Set PageId :=
  {page | ∃ run, view.run page = .ok run}

/-- **A field has a container at a page**: there is a field with a record of that container. -/
def Owns (view : Snapshot) (name : String) (page : PageId) : Prop :=
  ∃ field record, Catalog.find view name = .ok field ∧ view.HasContainer name page record

/-- **The stray runs of a snapshot**: those that are in no container of any field. -/
def strays (view : Snapshot) : Set PageId :=
  {page | page ∈ view.pages ∧ ∀ name, ¬view.Owns name page}

variable {view next : Snapshot} {ledger : Ledger} {name other : String} {page : PageId}
  {field : FieldRecord} {contents : GraphContents}

/-- The page runs of a snapshot are found by its look-ups. -/
lemma pages_congr (hrun : ∀ page, next.run page = view.run page) : next.pages = view.pages := by
  simp only [pages, hrun]

/-- Whether a field has a container depends on the key space only. -/
lemma owns_congr (hget : ∀ key, next.get? key = view.get? key) :
    next.Owns name page ↔ view.Owns name page := by
  simp only [Owns, HasContainer, Catalog.find, hget]

/-- The stray runs depend on what is stored and on the page runs only. -/
lemma strays_congr (hget : ∀ key, next.get? key = view.get? key)
    (hpages : next.pages = view.pages) : next.strays = view.strays := by
  simp only [strays, hpages, owns_congr hget]

/-- A field has the containers of its graph. -/
lemma Holds.owns_iff (h : view.Holds name contents) (hfind : Catalog.find view name = .ok field) :
    view.Owns name page ↔ (contents.container page).isSome = true := by
  constructor
  · rintro ⟨_, record, _, stored, hstored, _⟩
    rw [← h.isSome_get?_container, hstored, Option.isSome_some]
  · intro hsome
    obtain ⟨container, hcontainer⟩ := Option.isSome_iff_exists.mp hsome
    exact ⟨field, container.record, hfind, h.hasContainer hcontainer⟩

namespace Sound

/-- **A run belongs to one field at most.** -/
theorem eq_of_owns (h : view.Sound ledger) (hname : view.Owns name page)
    (hother : view.Owns other page) : name = other := by
  obtain ⟨field, _, hfind, stored, hstored, _⟩ := hname
  obtain ⟨field', _, hfind', stored', hstored', _⟩ := hother
  by_contra hne
  have hnone := h.disjoint name other field field' hne hfind hfind' page (by rw [hstored]; rfl)
  rw [hstored'] at hnone
  cases hnone

/-- **Every container has a run.** -/
theorem mem_pages_of_owns (h : view.Sound ledger) (howns : view.Owns name page) :
    page ∈ view.pages := by
  obtain ⟨field, _, hfind, _⟩ := id howns
  obtain ⟨contents, hholds, _⟩ := h.graph name field hfind
  obtain ⟨container, hcontainer⟩ := Option.isSome_iff_exists.mp ((hholds.owns_iff hfind).mp howns)
  exact ⟨container.run, hholds.run_eq hcontainer⟩

/-- **Every run that is no stray is in one container of one field.** -/
theorem existsUnique_owns (h : view.Sound ledger) (hpage : page ∈ view.pages)
    (hstray : page ∉ view.strays) : ∃! name, view.Owns name page := by
  have hsome : ∃ name, view.Owns name page :=
    by_contra fun hnone => hstray ⟨hpage, not_exists.mp hnone⟩
  obtain ⟨name, howns⟩ := hsome
  exact ⟨name, howns, fun other hother => h.eq_of_owns hother howns⟩

/-- A field without vectors has no containers. -/
lemma not_owns_of_nil (h : view.Sound ledger) (hnil : ledger name = []) :
    ¬view.Owns name page := by
  intro howns
  obtain ⟨field, _, hfind, _⟩ := id howns
  obtain ⟨contents, hholds, hsound, _⟩ := h.graph name field hfind
  rw [hnil] at hsound
  obtain ⟨layout, shelves, hshelved, _, hvectors, _⟩ := hsound.shelved
  obtain ⟨container, hcontainer⟩ := Option.isSome_iff_exists.mp ((hholds.owns_iff hfind).mp howns)
  obtain ⟨shelf, hshelf, _⟩ := hshelved.listed page container hcontainer
  exact hshelved.nonempty shelf hshelf (List.flatMap_eq_nil_iff.mp hvectors shelf hshelf)

end Sound

namespace Changes

/-- A change to one field leaves the containers of the others.

**Proof sketch.** The definition and the records of the other field are as they were. -/
lemma owns_iff (h : Changes view next name contents) (hsound : view.Sound ledger)
    (hne : other ≠ name) : next.Owns other page ↔ view.Owns other page := by
  have hfind : Catalog.find next other = Catalog.find view other := by
    rw [Catalog.find, Catalog.find, h.definition other hne]
  have hget : ∀ field, Catalog.find view other = .ok field →
      next.get? (RecordKey.container other page).bytes =
        view.get? (RecordKey.container other page).bytes := fun field hfield =>
    h.other (.container other page) (hsound.slash_notMem hfield) hne
  constructor
  · rintro ⟨field, record, hfield, hrecord⟩
    rw [hfind] at hfield
    rw [HasContainer, hget field hfield] at hrecord
    exact ⟨field, record, hfield, hrecord⟩
  · rintro ⟨field, record, hfield, hrecord⟩
    rw [HasContainer, ← hget field hfield] at hrecord
    exact ⟨field, record, hfind.trans hfield, hrecord⟩

/-- **The strays after a change to one field** are in no container of the others, nor in one that
the field has then.

**Proof sketch.** The other fields own what they owned, and the field in question owns the
containers of its graph. -/
theorem mem_strays_iff (h : Changes view next name contents) (hsound : view.Sound ledger)
    (hfind : Catalog.find next name = .ok field) :
    page ∈ next.strays ↔ page ∈ next.pages ∧ (∀ other, other ≠ name → ¬view.Owns other page) ∧
      contents.container page = none := by
  have hown := @Holds.owns_iff next name page field contents h.holds hfind
  refine and_congr_right fun _ => ⟨fun hnone => ⟨fun other hne howns => ?_, ?_⟩, ?_⟩
  · exact hnone other ((h.owns_iff hsound hne).mpr howns)
  · exact Option.not_isSome_iff_eq_none.mp fun hsome => hnone name (hown.mpr hsome)
  · rintro ⟨hothers, hnone⟩ other howns
    by_cases hne : other = name
    · subst hne
      rw [hown, hnone] at howns
      cases howns
    · exact hothers other hne ((h.owns_iff hsound hne).mp howns)

end Changes

end Snapshot

/-! ## Transactions -/

namespace WriteTransaction

variable {txn txn' : WriteTransaction} {page : PageId} {pages : Nat} {contents : Run}

/-- **Handing out a run adds its page**, which is the next one, and fills the run with zeros.

**Proof sketch.** The runs are those from before and the new one. -/
theorem pages_of_allocate (h : txn.allocate pages = .ok (page, txn')) :
    page = ⟨txn.nextPage⟩ ∧ txn'.view.pages = insert page txn.view.pages ∧
      txn'.view.run page = .ok (Run.blank pages) := by
  have hzero : pages ≠ 0 := by
    rintro rfl
    cases h
  obtain ⟨found, hfound, _, _, hruns⟩ := txn.exists_allocate hzero
  obtain ⟨rfl, rfl⟩ := Prod.mk.inj (Except.ok.inj (h.symm.trans hfound))
  refine ⟨rfl, ?_, by rw [hruns, if_pos rfl]⟩
  ext other
  rw [Set.mem_insert_iff, Snapshot.pages, Set.mem_ofPred_eq, hruns]
  split_ifs with heq
  · exact ⟨fun _ => .inl heq.symm, fun _ => ⟨_, rfl⟩⟩
  · exact ⟨.inr, fun h => h.resolve_left fun hpage => heq hpage.symm⟩

/-- Replacing a run adds no page. -/
lemma pages_of_writeRun (h : txn.writeRun page contents = .ok txn') :
    txn'.view.pages = txn.view.pages := by
  obtain ⟨current, hcurrent, _, _, hruns⟩ := exists_of_writeRun h
  ext other
  rw [Snapshot.pages, Set.mem_ofPred_eq, hruns]
  split_ifs with heq
  · exact ⟨fun _ => heq ▸ ⟨current, hcurrent⟩, fun _ => ⟨contents, rfl⟩⟩
  · rfl

end WriteTransaction

namespace FieldGraph

variable {graph : FieldGraph} {txn txn' : WriteTransaction}

/-- **Writing a graph adds no page.** -/
theorem pages_of_flush (h : graph.flush txn = .ok txn') : txn'.view.pages = txn.view.pages :=
  flush_preserves (fun written => written.view.pages = txn.view.pages)
    (fun hnow hwrite => (WriteTransaction.pages_of_writeRun hwrite).trans hnow)
    (fun record value _ hnow => (Snapshot.pages_congr fun page =>
      WriteTransaction.run_view_put _ record.bytes value page).trans hnow)
    rfl h

end FieldGraph

end Proximity

import Proximity.Proofs.Index.Lengths
import Proximity.Proofs.Store.Strays

set_option relaxedAutoImplicit false
set_option autoImplicit false

/-!
# The page runs of a session

What a session registers stays in its graph until it commits, but the page runs of its containers
are handed out by the transaction at once. As long as no insertion has failed the graph has a
container in each run that the session has handed out, and a commit writes the records of these
containers. A session that is given up, and one in which an insertion has failed, never writes them:
its runs remain in the transaction, full of zeros.

## Main definitions

* `Proximity.FieldGraph.pages` — the containers of an opened graph.
* `Proximity.Registration.Since` — a session and the transaction on which it was opened.

## Main results

* `Proximity.Registration.cases_of_insert` — what an insertion hands out.
* `Proximity.Registration.Since.registerAtLevel` — registering, whether it succeeds or not.
* `Proximity.Registration.Since.strays_commit` — a session that commits leaves no strays behind.
* `Proximity.Registration.Since.strays_eq` — one that does not commit leaves all its runs behind.
-/

namespace Proximity

/-! ## Graphs -/

namespace FieldGraph

/-- The pages of the containers of an opened graph that can be read. -/
def pages (graph : FieldGraph) : Set PageId :=
  {page | ∃ container, graph.container page = .ok container}

variable {graph next : FieldGraph} {field : FieldRecord} {base contents : GraphContents}
  {page : PageId}

/-- A container that is put into a graph brings its page. -/
lemma pages_setContainer (graph : FieldGraph) (page : PageId) (container : Container) :
    (graph.setContainer page container).pages = Insert.insert page graph.pages := by
  ext other
  rw [Set.mem_insert_iff, pages, Set.mem_ofPred_eq, setContainer_container]
  split_ifs with heq
  · exact ⟨fun _ => .inl heq, fun _ => ⟨container, rfl⟩⟩
  · exact ⟨.inr, fun h => h.resolve_left heq⟩

/-- The pages of a graph are those of the containers in its contents. -/
lemma Shows.mem_pages_iff (h : graph.Shows field base contents) :
    page ∈ graph.pages ↔ (contents.container page).isSome = true := by
  rw [pages, Set.mem_ofPred_eq, FieldGraph.container, h.container]
  cases contents.container page with
  | none => simp
  | some container => simp

end FieldGraph

namespace Registration

variable {session next : Registration} {opened txn txn' : WriteTransaction}
  {graph graph' : FieldGraph} {layout : ContainerLayout} {id : VectorId} {raw level : Nat}
  {stored : Bytes} {ledger : Ledger} {added : List Accepted}

/-! ## What is handed out -/

/-- Looking for a free slot hands out a run or nothing, whether a slot is found or not. -/
lemma fst_allocate_cases (txn : WriteTransaction) (graph : FieldGraph)
    (layout : ContainerLayout) :
    (allocate txn graph layout).1 = txn ∨
      ∃ page, txn.allocate layout.pages = .ok (page, (allocate txn graph layout).1) := by
  unfold allocate
  cases roomyContainer graph layout with
  | error e => exact .inl rfl
  | ok found =>
    cases found with
    | some found => exact .inl rfl
    | none =>
      cases hallocate : txn.allocate layout.pages with
      | error cause => exact .inl rfl
      | ok handed => exact .inr ⟨handed.1, rfl⟩

/-- **An insertion hands out a run or nothing**, whether it succeeds or not.

**Proof sketch.** Only looking for a free slot changes the transaction. -/
theorem fst_insert_cases {result : Except IndexError FieldGraph}
    (h : session.insert id raw stored level = (txn, result)) :
    txn = session.txn ∨
      ∃ pages page, pages < UInt32.size ∧ session.txn.allocate pages = .ok (page, txn) := by
  unfold insert at h
  dsimp only at h
  split at h
  · exact .inl (Prod.mk.inj h).1.symm
  next layout hlayout =>
  have hcases := fst_allocate_cases session.txn
    { session.graph with header := fixLengths session.graph.header raw stored.length } layout
  have hlt := FieldGraph.pages_lt_of_layout hlayout
  split at h
  · next hallocate =>
    rw [hallocate, (Prod.mk.inj h).1] at hcases
    exact hcases.imp_right fun ⟨page, hpage⟩ => ⟨_, page, hlt, hpage⟩
  · next hallocate =>
    rw [hallocate, (Prod.mk.inj h).1] at hcases
    exact hcases.imp_right fun ⟨page, hpage⟩ => ⟨_, page, hlt, hpage⟩

/-- **An insertion that succeeds** puts the vector into a container of the graph, or into a new one
in the run that it hands out.

**Proof sketch.** The container that has taken the vector is put back under its page, and the
linking keeps the containers. -/
theorem cases_of_insert (h : session.insert id raw stored level = (txn, .ok graph)) :
    (txn = session.txn ∧ graph.pages = session.graph.pages) ∨
      ∃ pages page, pages < UInt32.size ∧ session.txn.allocate pages = .ok (page, txn) ∧
        graph.pages = Insert.insert page session.graph.pages := by
  obtain ⟨layout, page, container, hlayout, hallocate, hplace⟩ := exists_of_insert h
  obtain ⟨_, location, filled, linked, _, hrewires, rfl⟩ := exists_of_place hplace
  have hpages : FieldGraph.pages { linked with
      header := FieldGraph.countNode linked.header id level } =
        Insert.insert page session.graph.pages := by
    rw [← FieldGraph.pages_setContainer session.graph page filled]
    simp only [FieldGraph.pages, FieldGraph.container, hrewires.containers]
    rfl
  rcases allocate_cases hallocate with ⟨rfl, hcontainer⟩ | ⟨hnew, _⟩
  · exact .inl ⟨rfl, hpages.trans (Set.insert_eq_of_mem ⟨container, hcontainer⟩)⟩
  · exact .inr ⟨layout.pages, page, FieldGraph.pages_lt_of_layout hlayout, hnew, hpages⟩

/-! ## Sessions since they were opened -/

/-- **What a session has done to its transaction** since it was opened on it: it has handed out runs
of zeros, beginning with the next page. As long as no insertion has failed its graph has the
containers that the field had, and one in each of these runs. -/
structure Since (opened : WriteTransaction) (session : Registration) : Prop where
  arises : opened.Arises
  owned : ∀ name page, opened.view.Owns name page → page ∈ opened.view.pages
  extends_txn : opened.Extends session.txn
  arises_txn : session.txn.Arises
  first : opened.nextPage < session.txn.nextPage → ⟨opened.nextPage⟩ ∈ session.txn.view.pages
  blank : ∀ page ∈ session.txn.view.pages \ opened.view.pages, ∃ pages,
    session.txn.view.run page = .ok (Run.blank pages)
  graph : session.failure = none → ∀ page, page ∈ session.graph.pages ↔
    opened.view.Owns session.field.name page ∨ page ∈ session.txn.view.pages \ opened.view.pages

/-- A session that has just been opened has handed out nothing.

**Proof sketch.** The graph has the containers that the field owns, and no run is new. -/
lemma since_of_start {config : Config} {name : String} (harises : txn.Arises)
    (hsound : txn.view.Sound ledger) (h : start config txn name = .ok session) :
    session.Since txn := by
  obtain ⟨rfl, _, _, hfind, hload⟩ := exists_of_start h
  obtain ⟨rfl, _⟩ := hsound.valid hfind
  obtain ⟨contents, hholds, _⟩ := hsound.graph session.field.name session.field hfind
  obtain ⟨graph, hgraph, hshows⟩ := FieldGraph.exists_load hholds
  obtain rfl := Except.ok.inj (hgraph.symm.trans hload)
  exact {
    arises := harises
    owned := fun name page => hsound.mem_pages_of_owns
    extends_txn := .refl session.txn
    arises_txn := harises
    first := fun hlt => absurd hlt (UInt64.lt_irrefl _)
    blank := fun page hpage => absurd hpage.1 hpage.2
    graph := fun _ page => by
      rw [hshows.mem_pages_iff, hholds.owns_iff hfind, Set.sdiff_self, Set.mem_empty_iff_false,
        or_false] }

namespace Since

/-- Everything that had a run has it still. -/
lemma run_eq (h : session.Since opened) {page : PageId} (hpage : page ∈ opened.view.pages) :
    session.txn.view.run page = opened.view.run page := by
  obtain ⟨run, hrun⟩ := hpage
  exact h.extends_txn.run page (h.arises.number_lt_nextPage hrun)

/-- A session takes no page run away. -/
lemma pages_subset (h : session.Since opened) :
    opened.view.pages ⊆ session.txn.view.pages := by
  rintro page ⟨run, hrun⟩
  exact ⟨run, (h.run_eq ⟨run, hrun⟩).trans hrun⟩

/-- What has been handed out since did not belong to any field. -/
lemma not_owns (h : session.Since opened) {page : PageId}
    (hpage : page ∈ session.txn.view.pages \ opened.view.pages) (name : String) :
    ¬opened.view.Owns name page :=
  fun howns => hpage.2 (h.owned name page howns)

/-! ### Registering -/

/-- A session that hands out nothing, with the same containers unless it fails. -/
lemma congr (h : session.Since opened) (htxn : next.txn = session.txn)
    (hfield : next.field = session.field)
    (hgraph : next.failure = none → session.failure = none ∧
      next.graph.pages = session.graph.pages) : next.Since opened where
  arises := h.arises
  owned := h.owned
  extends_txn := htxn ▸ h.extends_txn
  arises_txn := htxn ▸ h.arises_txn
  first := htxn ▸ h.first
  blank := htxn ▸ h.blank
  graph hfailure := by
    obtain ⟨hnone, hpages⟩ := hgraph hfailure
    rw [hpages, hfield, htxn]
    exact h.graph hnone

/-- A session that hands out a run, with a container in it unless it fails.

**Proof sketch.** The page of the new run is behind all pages that were there, so that nobody owns
it. -/
lemma allocate (h : session.Since opened) {pages : Nat} {page : PageId}
    (hallocate : session.txn.allocate pages = .ok (page, next.txn))
    (hlt : session.txn.nextPage < next.txn.nextPage) (hfield : next.field = session.field)
    (hgraph : next.failure = none → session.failure = none ∧
      next.graph.pages = Insert.insert page session.graph.pages) : next.Since opened := by
  obtain ⟨hpage, hpages, hrun⟩ := WriteTransaction.pages_of_allocate hallocate
  have hextends := WriteTransaction.extends_of_allocate hallocate (UInt64.le_of_lt hlt)
  -- The page is new, since every run that existed had been handed out before.
  have hnew : page ∉ opened.view.pages := by
    rintro ⟨run, hrun⟩
    have hold := h.arises.number_lt_nextPage hrun
    rw [hpage] at hold
    exact UInt64.not_lt.mpr h.extends_txn.nextPage_le hold
  have hhanded : next.txn.view.pages \ opened.view.pages =
      Insert.insert page (session.txn.view.pages \ opened.view.pages) := by
    rw [hpages, Set.insert_sdiff_of_notMem _ hnew]
  exact {
    arises := h.arises
    owned := h.owned
    extends_txn := h.extends_txn.trans hextends
    arises_txn := h.arises_txn.allocate hallocate hlt
    first := by
      intro _
      rw [hpages]
      by_cases heq : opened.nextPage = session.txn.nextPage
      · rw [hpage, heq]
        exact Set.mem_insert _ _
      · refine Set.mem_insert_of_mem _ (h.first ?_)
        exact UInt64.lt_of_le_of_ne h.extends_txn.nextPage_le heq
    blank := by
      intro other hother
      rw [hhanded] at hother
      rcases hother with rfl | hother
      · exact ⟨pages, hrun⟩
      · obtain ⟨count, hblank⟩ := h.blank other hother
        refine ⟨count, (hextends.run other ?_).trans hblank⟩
        exact h.arises_txn.number_lt_nextPage hblank
    graph := by
      intro hfailure other
      obtain ⟨hnone, hcontainers⟩ := hgraph hfailure
      rw [hcontainers, hhanded, Set.mem_insert_iff, Set.mem_insert_iff, h.graph hnone, hfield]
      exact or_left_comm }

/-- **An insertion**, whether it succeeds or not.

**Proof sketch.** Either no run is handed out, and the containers are the same, or one is, with a
container in it unless the insertion fails. -/
theorem registerAt (h : session.Since opened) {id : UInt64} {length : Nat}
    (hpages : session.txn.nextPage.toNat + UInt32.size ≤ UInt64.size) :
    (session.registerAt id length stored level).1.Since opened := by
  have hle := (session.grows_of_insert ⟨id⟩ length stored level hpages).extends_txn.nextPage_le
  unfold Registration.registerAt
  split
  · next txn graph hinsert =>
    rw [hinsert] at hle
    rcases cases_of_insert hinsert with ⟨rfl, hcontainers⟩ |
      ⟨pages, page, hsmall, hallocate, hcontainers⟩
    · exact h.congr rfl rfl fun hfailure => ⟨hfailure, hcontainers⟩
    · have hlt := WriteTransaction.lt_of_allocate hallocate hsmall hle
      exact h.allocate hallocate hlt rfl fun hfailure => ⟨hfailure, hcontainers⟩
  · next txn e hinsert =>
    rw [hinsert] at hle
    rcases fst_insert_cases hinsert with rfl | ⟨pages, page, hsmall, hallocate⟩
    · exact h.congr rfl rfl fun hfailure => by cases hfailure
    · have hlt := WriteTransaction.lt_of_allocate hallocate hsmall hle
      exact h.allocate hallocate hlt rfl fun hfailure => by cases hfailure

/-- The source of levels does not matter. -/
lemma withGenerator (h : session.Since opened) (generator : Generator) :
    ({ session with generator } : Registration).Since opened :=
  h.congr rfl rfl fun hfailure => ⟨hfailure, rfl⟩

/-- **Registering a vector**, whether it is refused, accepted or cannot be inserted.

**Proof sketch.** A vector that fails the check changes nothing; any other is inserted at some
level. -/
theorem registerAtLevel (h : session.Since opened) (id : UInt64) (bytes : Bytes)
    {chosen : Option Nat} (hlevel : ∀ l, chosen = some l → l ≤ maxLevel)
    (hpages : session.txn.nextPage.toNat + UInt32.size ≤ UInt64.size) :
    (session.registerAtLevel id bytes chosen).1.Since opened := by
  cases hcheck : session.check id bytes with
  | error e =>
    rw [registerAtLevel_of_check hcheck]
    exact h
  | ok encoded =>
    obtain ⟨generator, drawn, _, heq⟩ := Running.exists_registerAtLevel_eq hcheck hlevel
    rw [heq]
    exact (h.withGenerator generator).registerAt hpages

/-! ### Ending -/

/-- **A session that does not commit leaves its runs behind**: the strays of its transaction are
those that were there before and all that it has handed out.

**Proof sketch.** The keys are as they were, hence so are the owners. The new runs have none. -/
theorem strays_eq (h : session.Since opened) :
    session.txn.view.strays =
      opened.view.strays ∪ (session.txn.view.pages \ opened.view.pages) := by
  ext page
  have howns : ∀ name, session.txn.view.Owns name page ↔ opened.view.Owns name page := fun _ =>
    Snapshot.owns_congr h.extends_txn.sameEntries.get?
  constructor
  · rintro ⟨hpage, hnone⟩
    by_cases hold : page ∈ opened.view.pages
    · exact .inl ⟨hold, fun name => (howns name).not.mp (hnone name)⟩
    · exact .inr ⟨hpage, hold⟩
  · rintro (⟨hold, hnone⟩ | hnew)
    · exact ⟨h.pages_subset hold, fun name => (howns name).not.mpr (hnone name)⟩
    · exact ⟨hnew.1, fun name => (howns name).not.mpr (h.not_owns hnew name)⟩

/-- **A session that commits leaves no run behind.**

**Proof sketch.** The commit writes a record for each container of the graph, which are those of the
field and all new runs. -/
theorem strays_commit (h : session.Since opened) (hrunning : session.Running ledger added) :
    ∃ txn, session.commit = .ok (added.length, txn) ∧ txn.Arises ∧
      txn.view.strays = opened.view.strays := by
  obtain ⟨base, contents, txn, hshows, hcommit, hflushed, hsound⟩ := hrunning.exists_flushed
  have hflush := (exists_of_commit hcommit).2
  have hchanges := hrunning.view.changes_of_flushed hrunning.field hflushed
  have hfind := (Snapshot.Sound.find_of_flushed hflushed session.field.name).trans hrunning.field
  refine ⟨txn, hcommit, FieldGraph.arises_of_flush h.arises_txn hflush, ?_⟩
  ext page
  have howns : ∀ name, session.txn.view.Owns name page ↔ opened.view.Owns name page := fun _ =>
    Snapshot.owns_congr h.extends_txn.sameEntries.get?
  have hcontainer : contents.container page = none ↔
      ¬(opened.view.Owns session.field.name page ∨
        page ∈ session.txn.view.pages \ opened.view.pages) := by
    rw [← h.graph hrunning.failure, hshows.mem_pages_iff, Option.not_isSome_iff_eq_none]
  rw [hchanges.mem_strays_iff hrunning.view hfind, FieldGraph.pages_of_flush hflush, hcontainer]
  constructor
  · rintro ⟨hpage, hothers, hnone⟩
    have hold : page ∈ opened.view.pages :=
      by_contra fun hnew => hnone (.inr ⟨hpage, hnew⟩)
    refine ⟨hold, fun name hname => ?_⟩
    by_cases heq : name = session.field.name
    · exact hnone (.inl (heq ▸ hname))
    · exact hothers name heq ((howns name).mpr hname)
  · rintro ⟨hold, hnone⟩
    refine ⟨h.pages_subset hold, fun name _ => (howns name).not.mpr (hnone name), ?_⟩
    rintro (hname | hnew)
    · exact hnone _ hname
    · exact hnew.2 hold

/-- **A session has handed out a run exactly if the next page number has changed.**

**Proof sketch.** A new run begins at the first page number that had not been handed out. -/
theorem nextPage_eq_iff (h : session.Since opened) :
    session.txn.nextPage = opened.nextPage ↔ session.txn.view.pages = opened.view.pages := by
  constructor
  · intro heq
    refine Set.Subset.antisymm (fun page hpage => ?_) h.pages_subset
    obtain ⟨run, hrun⟩ := hpage
    have hlt := h.arises_txn.number_lt_nextPage hrun
    rw [heq] at hlt
    exact ⟨run, (h.extends_txn.run page hlt).symm.trans hrun⟩
  · intro heq
    by_contra hne
    have hfirst := h.first (UInt64.lt_of_le_of_ne h.extends_txn.nextPage_le (Ne.symm hne))
    rw [heq] at hfirst
    obtain ⟨run, hrun⟩ := hfirst
    exact UInt64.lt_irrefl _ (h.arises.number_lt_nextPage hrun)

end Since

end Registration

end Proximity

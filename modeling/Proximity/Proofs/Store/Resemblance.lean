import Proximity.Proofs.Graph.Resemblance
import Proximity.Proofs.Search

set_option relaxedAutoImplicit false
set_option autoImplicit false

/-!
# Snapshots that differ in places only

Two snapshots resemble each other in a field if they have the same definition of it and graphs that
are equal but for places. If the field has also accepted the same vectors in both, then callers see
no difference: the vectors of sound graphs are those that have been accepted, wherever they lie.

## Main definitions

* `Proximity.Snapshot.Resembles` — two snapshots that resemble each other in a field.
* `Proximity.Snapshot.Keeps` — a snapshot that has gone on from another in one field at most.
* `Proximity.Snapshot.inspect` — what a caller can see of a graph.
* `Proximity.Snapshot.AnswersAlike` — two snapshots that answer alike about a field.

## Main results

* `Proximity.Snapshot.Resembles.of_keeps` — what happens to other fields does not matter.
* `Proximity.Snapshot.Sound.keeps_create`, `Proximity.Snapshot.Sound.keeps_flushed`,
  `Proximity.Snapshot.Sound.keeps_extends` — what happens to one field.
* `Proximity.Snapshot.Resembles.answersAlike` — callers see no difference.
-/

namespace Proximity

/-! ## Vectors -/

section Vectors

variable {graph graph' : FieldGraph} {field : FieldRecord}
  {base base' contents contents' : GraphContents} {vectors : List Accepted}

/-- Sound graphs of the same vectors give the same vectors. -/
lemma GraphContents.Sound.vector_eq (h : contents.Sound field vectors)
    (h' : contents'.Sound field vectors) (hshows : graph.Shows field base contents)
    (hshows' : graph'.Shows field base' contents') {id : VectorId} {node : NodeRecord}
    (hnode : graph.node id = .ok node) : graph'.vector id = graph.vector id := by
  have hmember : id ∈ contents.members 0 := ⟨node, hshows.node_eq_ok_iff.mp hnode, Nat.zero_le _⟩
  obtain ⟨vector, hvector, rfl⟩ := List.mem_map.mp ((h.registered id).mp hmember)
  rw [hshows.vector_eq (h.stores hvector), hshows'.vector_eq (h'.stores hvector)]

/-- **Sound graphs of the same vectors** that are equal but for places resemble each other. -/
theorem FieldGraph.SameShape.resembles (h : graph.SameShape graph')
    (hshows : graph.Shows field base contents) (hshows' : graph'.Shows field base' contents')
    (hsound : contents.Sound field vectors) (hsound' : contents'.Sound field vectors) :
    graph.Resembles graph' :=
  ⟨h, fun _ _ hnode => hsound.vector_eq hsound' hshows hshows' hnode⟩

end Vectors

namespace Snapshot

variable {view view' next next' : Snapshot} {name other : String} {ledger ledger' : Ledger}
  {field : FieldRecord}

/-! ## One field -/

/-- **Two snapshots resemble each other in a field**: the definition is the same, and the graphs are
equal but for places. -/
structure Resembles (name : String) (view view' : Snapshot) : Prop where
  definition : view'.get? (RecordKey.field name).bytes = view.get? (RecordKey.field name).bytes
  graph : ∀ field, Catalog.find view name = .ok field → ∃ contents contents',
    view.Holds name contents ∧ view'.Holds name contents' ∧ contents.Resembles contents'

/-- A field definition is found by what is stored under one key. -/
lemma find_congr
    (h : view'.get? (RecordKey.field name).bytes = view.get? (RecordKey.field name).bytes) :
    Catalog.find view' name = Catalog.find view name := by
  rw [Catalog.find, Catalog.find, h]

/-- A sound snapshot resembles itself. -/
lemma Sound.resembles_self (h : view.Sound ledger) (name : String) :
    Resembles name view view where
  definition := rfl
  graph field hfind := by
    obtain ⟨contents, hholds, _⟩ := h.graph name field hfind
    exact ⟨contents, contents, hholds, hholds, rfl, fun _ => rfl⟩

/-! ## What happens to other fields -/

/-- **One snapshot has gone on from another in one field at most**: all other fields have the
definitions and graphs that they had. -/
structure Keeps (name : String) (view next : Snapshot) : Prop where
  definition : ∀ other, other ≠ name →
    next.get? (RecordKey.field other).bytes = view.get? (RecordKey.field other).bytes
  holds : ∀ other field contents, other ≠ name → Catalog.find view other = .ok field →
    view.Holds other contents → next.Holds other contents

/-- A snapshot keeps what it has. -/
lemma Keeps.refl (name : String) (view : Snapshot) : Keeps name view view :=
  ⟨fun _ _ => rfl, fun _ _ _ _ _ hholds => hholds⟩

/-- A snapshot with the same key space and the same page runs has the same fields. -/
lemma keeps_of_same (name : String) (hget : ∀ key, next.get? key = view.get? key)
    (hrun : ∀ page, next.run page = view.run page) : Keeps name view next where
  definition _ _ := hget _
  holds _ _ _ _ _ hholds := hholds.congr (fun key _ _ => hget key.bytes) fun page _ _ => hrun page

/-- **Snapshots go on resembling each other in a field** while other fields are changed.

**Proof sketch.** Both views keep the definition of the field and what they hold of it. -/
theorem Resembles.of_keeps (h : Resembles other view view') (hkeeps : Keeps name view next)
    (hkeeps' : Keeps name view' next') (hne : other ≠ name) : Resembles other next next' where
  definition := by
    rw [hkeeps.definition other hne, hkeeps'.definition other hne, h.definition]
  graph field hfind := by
    rw [find_congr (hkeeps.definition other hne)] at hfind
    obtain ⟨contents, contents', hholds, hholds', hsame⟩ := h.graph field hfind
    have hfind' := (find_congr h.definition).trans hfind
    exact ⟨contents, contents', hkeeps.holds other field contents hne hfind hholds,
      hkeeps'.holds other field contents' hne hfind' hholds', hsame⟩

namespace Sound

variable {txn txn' : WriteTransaction}

/-- Handing out page runs changes no field. -/
theorem keeps_extends (h : txn.view.Sound ledger) (hextends : txn.Extends txn') (name : String) :
    Keeps name txn.view txn'.view where
  definition _ _ := hextends.sameEntries.get? _
  holds _ _ _ _ hfind hholds := h.holds_extends_txn hfind hholds hextends

/-- Creating a field changes no other one. -/
theorem keeps_create (h : txn.view.Sound ledger) {options : FieldOptions} {record : FieldRecord}
    (hcreate : Catalog.create txn name options = .ok (record, txn')) :
    Keeps name txn.view txn'.view where
  definition := (h.changes_create hcreate).definition
  holds _ _ _ hne hfind hholds :=
    (h.holds_of_changes (h.changes_create hcreate)
      (fun _ _ _ _ _ hin => by simp [GraphContents.blank] at hin) hne hfind hholds).2

/-- **Writing back the graph of a field** in containers of its own changes no other field. -/
theorem keeps_flushed (h : txn.view.Sound ledger) (hfind : Catalog.find txn.view name = .ok field)
    {contents : GraphContents} (hflushed : FieldGraph.Flushed name contents txn txn')
    (hapart : ∀ other field', other ≠ name → Catalog.find txn.view other = .ok field' →
      ∀ page, (contents.container page).isSome = true →
        txn.view.get? (RecordKey.container other page).bytes = none) :
    Keeps name txn.view txn'.view where
  definition := (h.changes_of_flushed hfind hflushed).definition
  holds _ _ _ hne hfind' hholds :=
    (h.holds_of_changes (h.changes_of_flushed hfind hflushed) hapart hne hfind' hholds).2

end Sound

/-! ## What callers see -/

/-- What a caller can see of the graph of a field: its header and its nodes, but no places. -/
def inspect (view : Snapshot) (name : String) :
    Except IndexError (GraphHeader × (VectorId → Except IndexError NodeRecord)) := do
  let field ← Catalog.find view name
  let graph ← FieldGraph.load view field.name (.ofOptions field.options)
  return (graph.header.placeless, fun id => (graph.node id).map NodeRecord.placeless)

/-- **Two snapshots answer alike about a field**: the definition, the graph and all searches. -/
structure AnswersAlike (name : String) (view view' : Snapshot) : Prop where
  info : Catalog.find view' name = Catalog.find view name
  graph : view'.inspect name = view.inspect name
  exact : Search.exact view' name = Search.exact view name
  approximate : Search.approximate view' name = Search.approximate view name

/-- What is known of a field in which two sound snapshots resemble each other. -/
lemma Resembles.exists_graphs (h : Resembles name view view') (hview : view.Sound ledger)
    (hview' : view'.Sound ledger') (haccepted : ledger' name = ledger name)
    (hfind : Catalog.find view name = .ok field) :
    ∃ contents contents' graph graph', view.Holds name contents ∧ view'.Holds name contents' ∧
      contents'.header.placeless = contents.header.placeless ∧
      contents.Sound field (ledger name) ∧ contents'.Sound field (ledger name) ∧
      FieldGraph.load view name (.ofOptions field.options) = .ok graph ∧
      FieldGraph.load view' name (.ofOptions field.options) = .ok graph' ∧
      graph.Shows field contents contents ∧ graph'.Shows field contents' contents' ∧
      graph.Resembles graph' := by
  obtain ⟨contents, contents', hholds, hholds', hsame⟩ := h.graph field hfind
  have hfind' := (find_congr h.definition).trans hfind
  obtain ⟨hsound, _⟩ := hview.sound_of_holds hfind hholds
  obtain ⟨hsound', _⟩ := hview'.sound_of_holds hfind' hholds'
  rw [haccepted] at hsound'
  obtain ⟨rfl, _⟩ := hview.valid hfind
  obtain ⟨graph, hload, hshows⟩ := FieldGraph.exists_load hholds
  obtain ⟨graph', hload', hshows'⟩ := FieldGraph.exists_load hholds'
  exact ⟨contents, contents', graph, graph', hholds, hholds', hsame.header, hsound, hsound', hload,
    hload', hshows, hshows', (FieldGraph.sameShape_of_shows hsame hshows hshows').resembles hshows
      hshows' hsound hsound'⟩

/-- Both snapshots compare a query with the same vectors. -/
lemma Resembles.exactIn_eq (h : Resembles name view view') (hview : view.Sound ledger)
    (hview' : view'.Sound ledger') (haccepted : ledger' name = ledger name)
    (hfind : Catalog.find view name = .ok field) :
    Search.exactIn view' field = Search.exactIn view field := by
  obtain ⟨contents, contents', _, _, hholds, hholds', hheader, hsound, hsound', _⟩ :=
    h.exists_graphs hview hview' haccepted hfind
  have hfind' := (find_congr h.definition).trans hfind
  obtain ⟨_, _, _, hraw, hlength⟩ := GraphHeader.placeless_eq_iff.mp hheader
  funext count query minSimilarity
  rcases hsound.encodeQuery_cases query with ⟨reason, herror⟩ | ⟨encoded, haccepts⟩
  · obtain ⟨rfl, _⟩ := hview.valid hfind
    rw [Search.exactIn, Search.exactIn, hholds.header, hholds'.header, Except.ok_bind,
      Except.ok_bind, hraw, herror, Except.error_bind, Except.error_bind]
  · rw [hview.exactIn_eq hfind hholds hsound haccepts,
      hview'.exactIn_eq hfind' hholds' (haccepted ▸ hsound') (haccepted ▸ haccepts), hlength,
      haccepted]

/-- **Callers see no difference** between sound snapshots that resemble each other in a field which
has accepted the same vectors in both.

**Proof sketch.** An exact search depends on the accepted vectors only, and another one goes through
graphs that answer alike. -/
theorem Resembles.answersAlike (h : Resembles name view view') (hview : view.Sound ledger)
    (hview' : view'.Sound ledger') (haccepted : ledger' name = ledger name) :
    AnswersAlike name view view' := by
  have hinfo := find_congr h.definition
  cases hfind : Catalog.find view name with
  | error e =>
    have hfind' := hinfo.trans hfind
    refine ⟨hinfo, ?_, ?_, ?_⟩
    · rw [inspect, inspect, hfind, hfind', Except.error_bind, Except.error_bind]
    · funext count query minSimilarity
      rw [Search.exact, Search.exact, hfind, hfind', Except.error_bind, Except.error_bind]
    · funext breadth query minSimilarity
      rw [Search.approximate, Search.approximate, hfind, hfind', Except.error_bind,
        Except.error_bind]
  | ok field =>
    have hfind' := hinfo.trans hfind
    have hexact := h.exactIn_eq hview hview' haccepted hfind
    obtain ⟨contents, contents', graph, graph', hholds, hholds', hheader, _, _, hload, hload', _, _,
      hsame⟩ := h.exists_graphs hview hview' haccepted hfind
    obtain ⟨_, _, hcount, hraw, hlength⟩ := GraphHeader.placeless_eq_iff.mp hheader
    obtain ⟨rfl, _⟩ := hview.valid hfind
    refine ⟨hinfo, ?_, ?_, ?_⟩
    · have hnode : (fun id => (graph'.node id).map NodeRecord.placeless) =
          fun id => (graph.node id).map NodeRecord.placeless := by
        funext id
        rcases hsame.node_cases id with ⟨node, node', hnode, hnode', hplace⟩ | ⟨e, herror, herror'⟩
        · rw [hnode, hnode']
          exact congrArg Except.ok hplace
        · rw [herror, herror']
      simp only [inspect, hfind, hfind', hload, hload', Except.ok_bind, hsame.header, hnode]
    · funext count query minSimilarity
      rw [Search.exact, Search.exact, hfind, hfind', Except.ok_bind, Except.ok_bind, hexact]
    · funext breadth query minSimilarity
      simp only [Search.approximate, hfind, hfind', Except.ok_bind, Search.approximateIn,
        hholds.header, hholds'.header, hcount, hraw, hlength, hload, hload', hexact,
        hsame.answersAlike.search_eq]

end Snapshot

end Proximity

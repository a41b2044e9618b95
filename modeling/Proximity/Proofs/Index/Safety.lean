import Proximity.Proofs.Index.Founding
import Proximity.Proofs.Search

set_option relaxedAutoImplicit false
set_option autoImplicit false

/-!
# No internal errors

In an index that has been built by its own operations nothing goes wrong inside. A session refuses a
vector for a reason that lies in the vector, and otherwise registers it; it can always be committed.
All that a transaction sees can be read, and a search fails only where the query is at fault.

## Main results

* `Proximity.Index.Sound.exists_started` — a session can be opened on every field.
* `Proximity.Index.Reachable.register_cases` — what registering can answer.
* `Proximity.Snapshot.Sound.exists_inspected` — every vector that has been accepted can be
  inspected.
* `Proximity.Index.Reachable.no_internal_error` — no internal error can be reached.
-/

namespace Proximity

/-! ## What a transaction sees -/

namespace Snapshot.Sound

variable {view : Snapshot} {ledger : Ledger} {name : String} {field : FieldRecord}

/-- A field is there or it is not; its definition can always be read. -/
lemma find_cases (h : view.Sound ledger) (name : String) :
    (∃ field, Catalog.find view name = .ok field) ∨
      Catalog.find view name = .error (.fieldNotFound name) := by
  cases hstored : view.get? (RecordKey.field name).bytes with
  | none => exact .inr (by rw [Catalog.find, hstored])
  | some stored =>
    obtain ⟨field, hfind, _⟩ := h.field name (by rw [hstored, Option.isSome_some])
    exact .inl ⟨field, hfind⟩

/-- **Every vector that a field has accepted can be inspected**: its node, its neighbors on all
layers and its stored form can be read. -/
theorem exists_inspected (h : view.Sound ledger) (hfind : Catalog.find view name = .ok field) :
    ∃ graph, FieldGraph.load view name (.ofOptions field.options) = .ok graph ∧
      ∀ vector ∈ ledger name, graph.vector vector.id = .ok vector.stored ∧
        ∃ node, graph.node vector.id = .ok node ∧
          ∀ layer, graph.neighbors layer vector.id = .ok (node.neighborsAt layer) := by
  obtain ⟨rfl, _⟩ := h.valid hfind
  obtain ⟨contents, hholds, hsound, _⟩ := h.graph field.name field hfind
  obtain ⟨graph, hload, hshows⟩ := FieldGraph.exists_load hholds
  refine ⟨graph, hload, fun vector hvector => ⟨hshows.vector_eq (hsound.stores hvector), ?_⟩⟩
  obtain ⟨node, hnode, _⟩ := (hsound.registered vector.id).mpr (List.mem_map_of_mem hvector)
  refine ⟨node, hshows.node_eq hnode, fun layer => ?_⟩
  rw [hshows.neighbors_eq hnode, GraphContents.links_list hnode]

/-- **A search on a field answers or reports a fault of the query**, if there is room for as many
vectors as it asks for. -/
theorem search_cases (h : view.Sound ledger) (hfind : Catalog.find view name = .ok field)
    {count : Nat} (hroom : count < Search.maxRoom) (query : Bytes) (minSimilarity : Single) :
    ((∃ stream, Search.exact view name count query minSimilarity = .ok stream) ∨
      ∃ reason, Search.exact view name count query minSimilarity = .error (.invalidQuery reason)) ∧
    ((∃ stream, Search.approximate view name count query minSimilarity = .ok stream) ∨
      ∃ reason, Search.approximate view name count query minSimilarity =
        .error (.invalidQuery reason)) := by
  rw [Search.exact, Search.approximate, hfind, Except.ok_bind]
  exact ⟨h.exactIn_cases hfind (fun _ => hroom) query minSimilarity,
    h.approximateIn_cases hfind (fun _ _ => hroom) query minSimilarity⟩

end Snapshot.Sound

namespace Index

variable {index : Index} {session : Registration}

/-! ## Sessions -/

/-- A session can be opened on every field of the write transaction. -/
theorem Sound.exists_started (h : index.Sound) {txn : WriteTransaction}
    (hwriter : index.store.writer = some txn) {name : String} {field : FieldRecord}
    (hfind : Catalog.find txn.view name = .ok field) (config : Config) :
    ∃ session, Registration.start config txn name = .ok session := by
  obtain ⟨session, hstart, _⟩ :=
    Registration.exists_start config (h.writer txn hwriter) hfind
  exact ⟨session, hstart⟩

/-- **Registering a vector** registers it or refuses it for a reason that lies in the vector. -/
theorem Reachable.register_cases (h : Reachable Operation.IsShort index)
    (hsession : index.session = some session) {id : UInt64} {raw : Bytes} {level : Option Nat}
    (hfits : (Operation.register id raw level).Fits index)
    (hshort : (Operation.register id raw level).IsShort) :
    (session.registerAtLevel id raw level).2 = .ok () ∨
      ∃ e, session.registerAtLevel id raw level = (session, .error e) ∧
        Registration.IsRefusal e := by
  rcases (h.running hsession).register_cases id raw (hfits.1 session hsession) hfits.2 with
    ⟨e, hresult, hrefusal⟩ | ⟨next, stored, hresult, _⟩ | ⟨hlong, _⟩
  · exact .inr ⟨e, hresult, hrefusal⟩
  · exact .inl (by rw [hresult])
  · exact absurd hshort (Nat.not_le.mpr hlong)

/-! ## The whole index -/

/-- **No internal error can be reached.** In every state to which operations within the range of the
machine integers can lead:

* an open session has not failed; it registers a vector or refuses it for one of four reasons that
  lie in the vector, and then it stays as it was;
* an open session can be committed;
* a session can be opened on every field of the write transaction;
* all that a transaction can miss is a field that there is not;
* every vector that a field has accepted can be inspected;
* searches answer or report a fault of the query, where there can be room for as many vectors as
  they ask for.

**Proof sketch.** A reachable state is sound. For each call there is a lemma that says what it can
answer in such a state. -/
theorem Reachable.no_internal_error (h : Reachable Operation.IsShort index) :
    (∀ session, index.session = some session → session.failure = none ∧
      (∀ id raw level, (Operation.register id raw level).Fits index →
        (Operation.register id raw level).IsShort →
          (session.registerAtLevel id raw level).2 = .ok () ∨
            ∃ e, session.registerAtLevel id raw level = (session, .error e) ∧
              Registration.IsRefusal e) ∧
      ∃ txn, session.commit = .ok (index.added.length, txn)) ∧
    (∀ txn, index.store.writer = some txn → ∀ config name field,
      Catalog.find txn.view name = .ok field →
        ∃ session, Registration.start config txn name = .ok session) ∧
    ∀ view ledger, index.Sees view ledger → ∀ name,
      Catalog.find view name = .error (.fieldNotFound name) ∨
      ∃ field, Catalog.find view name = .ok field ∧
        (∃ graph, FieldGraph.load view name (.ofOptions field.options) = .ok graph ∧
          ∀ vector ∈ ledger name, graph.vector vector.id = .ok vector.stored ∧
            ∃ node, graph.node vector.id = .ok node ∧
              ∀ layer, graph.neighbors layer vector.id = .ok (node.neighborsAt layer)) ∧
        ∀ count, count < Search.maxRoom → ∀ query minSimilarity,
          ((∃ stream, Search.exact view name count query minSimilarity = .ok stream) ∨
            ∃ reason, Search.exact view name count query minSimilarity =
              .error (.invalidQuery reason)) ∧
          ((∃ stream, Search.approximate view name count query minSimilarity = .ok stream) ∨
            ∃ reason, Search.approximate view name count query minSimilarity =
              .error (.invalidQuery reason)) := by
  refine ⟨fun session hsession => ⟨h.healthy session hsession, ?_, ?_⟩, ?_,
    fun view ledger hsees name => ?_⟩
  · exact fun id raw level hfits hshort => h.register_cases hsession hfits hshort
  · obtain ⟨txn, hcommit, _⟩ := (h.running hsession).exists_commit
    exact ⟨txn, hcommit⟩
  · exact fun txn hwriter config name field hfind => h.sound.exists_started hwriter hfind config
  · have hview := h.sound_view hsees
    rcases hview.find_cases name with ⟨field, hfind⟩ | hmissing
    · exact .inr ⟨field, hfind, hview.exists_inspected hfind,
        fun _ hroom query minSimilarity => hview.search_cases hfind hroom query minSimilarity⟩
    · exact .inl hmissing

/-- The number one once more, under the name five. -/
def oneAgain : Accepted :=
  ⟨⟨5⟩, [0, 0, 128, 63], [0, 0, 128, 63]⟩

/-- Four numbers have been accepted, and a session has registered a fifth one, which is equal to one
of them. It goes on with a vector under any name and can be committed, and the field can be
inspected and searched.

**Proof sketch.** The session is opened after the run that builds the field, and the general result
is applied to it. -/
theorem exists_answers_spread : ∃ (index : Index) (session : Registration)
    (txn : WriteTransaction) (field : FieldRecord) (graph : FieldGraph),
      Reachable Operation.IsShort index ∧ index.session = some session ∧
      index.committed "v" = Accepted.spread ∧ index.added = [oneAgain] ∧
      session.failure = none ∧
      (∀ id, (session.registerAtLevel id [0, 0, 0, 0] (some 3)).2 = .ok () ∨
        ∃ e, session.registerAtLevel id [0, 0, 0, 0] (some 3) = (session, .error e) ∧
          Registration.IsRefusal e) ∧
      session.commit = .ok (1, txn) ∧
      Catalog.find index.store.beginRead "v" = .ok field ∧
      FieldGraph.load index.store.beginRead "v" (.ofOptions onLine) = .ok graph ∧
      (∀ vector ∈ Accepted.spread, graph.vector vector.id = .ok vector.stored) ∧
      ((∃ stream, Search.approximate index.store.beginRead "v" 3 [0, 0, 0, 0] .zero = .ok stream) ∨
        ∃ reason, Search.approximate index.store.beginRead "v" 3 [0, 0, 0, 0] .zero =
          .error (.invalidQuery reason)) := by
  obtain ⟨settled, field, pages, hsettled, hcommitted, hrests, hpages, hoptions⟩ := exists_spread
  have hadmits : Registration.Admits field (settled.committed "v") oneAgain := by
    rw [hcommitted]
    exact ⟨by decide, by rw [hoptions]; decide +kernel,
      fun hpos => absurd hpos (by rw [hoptions]; decide), by decide, by decide⟩
  obtain ⟨session, hregistered, _, hnextPage, hleads⟩ := @Rests.exists_registered _ _ _ _ hrests
    hsettled oneAgain hadmits (by decide) (by omega) none (by simp)
  have hreachable := hleads.reachable hsettled
  generalize (Operation.registering "v" oneAgain none).foldl step settled = index at *
  have hsession : index.session = some session := by rw [hregistered]
  have hadded : index.added = [oneAgain] := by rw [hregistered]
  have hspread : index.committed "v" = Accepted.spread := by
    rw [hregistered, ← hcommitted]
    rfl
  have hfind : Catalog.find index.store.beginRead "v" = .ok field := by
    rw [hregistered, ← hrests.find]
    rfl
  obtain ⟨hopen, _, hview⟩ := hreachable.no_internal_error
  obtain ⟨hfailure, hregister, txn, hcommit⟩ := hopen session hsession
  have hfits : ∀ id, (Operation.register id [0, 0, 0, 0] (some 3)).Fits index := by
    refine fun id => ⟨fun found hfound => ?_, by decide⟩
    rw [← Option.some.inj (hsession.symm.trans hfound)]
    omega
  rcases hview _ _ .reader "v" with hmissing | ⟨found, hfound, ⟨graph, hload, hvectors⟩, hsearch⟩
  · rw [hfind] at hmissing
    cases hmissing
  obtain rfl : field = found := Except.ok.inj (hfind.symm.trans hfound)
  rw [hspread] at hvectors
  rw [hoptions] at hload
  rw [hadded] at hcommit
  exact ⟨index, session, txn, field, graph, hreachable, hsession, hspread, hadded, hfailure,
    fun id =>
      hregister id [0, 0, 0, 0] (some 3) (hfits id) (show 4 + 4 ≤ maxStoredLength by decide),
    hcommit, hfind, hload, fun vector hvector => (hvectors vector hvector).1,
    (hsearch 3 (by decide) [0, 0, 0, 0] .zero).2⟩

end Index

end Proximity

import Proximity.Proofs.Registration.Effects
import Proximity.Proofs.Store.Fields

set_option relaxedAutoImplicit false
set_option autoImplicit false

/-!
# Sessions

A session that has been opened on a field of a sound transaction goes on without failing: every
vector is either refused for its own sake or registered, and in the end the session can be
committed. After that the field has accepted what the session has registered, in order. A session
that is given up leaves pages that have been handed out, and nothing else.

## Main definitions

* `Proximity.Registration.Running` — the invariant of a session.
* `Proximity.Registration.registerAtLevel` — registering with a level that is given or drawn.

## Main results

* `Proximity.GraphContents.Sound.fits` — the records of a sound graph can be stored.
* `Proximity.Registration.exists_start` — opening a session.
* `Proximity.Registration.Running.exists_register` — registering a vector that is admitted.
* `Proximity.Registration.Running.register_cases` — registering any vector.
* `Proximity.Registration.Running.exists_commit` — committing a session.
-/

namespace Proximity

/-! ## Records that can be stored -/

namespace GraphContents.Sound

variable {contents : GraphContents} {field : FieldRecord} {ledger : List Accepted}

/-- **The records of a sound graph can be stored.**

**Proof sketch.** The levels are bounded, there are fewer nodes than 64 bits count, and the
neighbors of a node are no more than its shape allows. -/
theorem fits (h : contents.Sound field ledger) (hoptions : field.options.Accepted) :
    contents.Fits where
  header := {
    maxLevel := by
      have hle := h.linked.maxLevel_le
      simp only [maxLevel] at hle
      omega
    nodeCount := h.nodeCount ▸ h.length_lt
    rawLength := h.rawLength_lt
    vectorLength := Nat.lt_of_le_of_lt h.vectorLength_le (by decide) }
  node id node hnode := by
    have hshaped := h.linked.shaped id node hnode
    have hlevel := (h.linked.level_le id node hnode).trans h.linked.maxLevel_le
    simp only [maxLevel] at hlevel
    refine ⟨by omega, by rw [hshaped.neighbors]; omega, fun list hlist => ?_,
      by rw [hshaped.parents]; omega⟩
    obtain ⟨layer, hlayer⟩ := List.mem_iff_getElem?.mp hlist
    obtain ⟨hlt, _⟩ := List.getElem?_eq_some_iff.mp hlayer
    rw [hshaped.neighbors] at hlt
    have hon : id ∈ contents.members layer := ⟨node, hnode, by omega⟩
    have hsome : contents.header.entryPoint ≠ none := fun hnone => by
      rw [h.linked.blank hnone] at hnode
      exact absurd hnode (by simp)
    have hlength := (h.linked.sound hsome layer
      (by have := h.linked.level_le id node hnode; omega)).length_le id hon
    have hedges := hoptions.edges_le
    rw [links_list hnode, NodeRecord.neighborsAt, hlayer, Option.getD_some] at hlength
    simp only [FieldOptions.maxEdges] at hedges
    omega
  container page container hcontainer := by
    obtain ⟨layout, shelves, hshelved, _, hledger, hlayout⟩ := h.shelved
    obtain ⟨shelf, hshelf, rfl⟩ := hshelved.listed page container hcontainer
    obtain ⟨found, hfound, hholds⟩ := hshelved.holds shelf hshelf
    obtain rfl := Option.some.inj (hcontainer.symm.trans hfound)
    obtain ⟨vector, hvector⟩ := List.exists_mem_of_ne_nil _ (hshelved.nonempty shelf hshelf)
    have hne : ledger ≠ [] := by
      rw [← hledger]
      exact List.ne_nil_of_mem (List.mem_flatMap.mpr ⟨shelf, hshelf, hvector⟩)
    exact hholds.length_lt (hlayout hne).2.1

end GraphContents.Sound

/-! ## Open sessions -/

namespace Registration

/-- Registers a vector at a level that is given, or else at one that is drawn. -/
def registerAtLevel (session : Registration) (id : UInt64) (raw : Bytes) (level : Option Nat) :
    Registration × Except IndexError Unit :=
  match level with
  | none => session.register id raw
  | some level =>
    match session.check id raw with
    | .error e => (session, .error e)
    | .ok encoded => session.registerAt id raw.length encoded level

/-- Registering at a level that is given or drawn goes on from the session. -/
lemma continues_registerAtLevel (session : Registration) (id : UInt64) (raw : Bytes)
    (level : Option Nat) (hpages : session.txn.nextPage.toNat + UInt32.size ≤ UInt64.size) :
    session.Continues 1 (session.registerAtLevel id raw level).1 := by
  cases level with
  | none => exact session.continues_register id raw hpages
  | some level =>
    unfold registerAtLevel
    cases session.check id raw with
    | error e => exact (Continues.refl session).mono (Nat.zero_le 1)
    | ok encoded => exact session.continues_registerAt id raw.length encoded level hpages

/-- **The invariant of a session** that has registered some vectors. -/
structure Running (session : Registration) (ledger : Ledger) (added : List Accepted) : Prop where
  failure : session.failure = none
  registered : session.registered = added.length
  view : session.txn.view.Sound ledger
  field : Catalog.find session.txn.view session.field.name = .ok session.field
  graph : ∃ base contents, session.txn.view.Holds session.field.name base ∧
    session.graph.Shows session.field base contents ∧
    contents.Sound session.field (ledger session.field.name ++ added) ∧
    contents.Backed session.txn.view ∧
    ∀ other field, other ≠ session.field.name → Catalog.find session.txn.view other = .ok field →
      ∀ page, (contents.container page).isSome = true →
        session.txn.view.get? (RecordKey.container other page).bytes = none

/-- A level that is drawn changes the source of levels, and it is not too high. -/
lemma exists_drawLevel (session : Registration) :
    ∃ generator level, level ≤ maxLevel ∧
      session.drawLevel = (level, { session with generator }) := by
  unfold drawLevel
  rcases session.generator.uniform with ⟨uniform, generator⟩
  exact ⟨generator, _, Nat.min_le_right _ _, rfl⟩

variable {session : Registration} {ledger : Ledger} {added : List Accepted}

/-- **Opening a session** on a field succeeds, and nothing has been registered then.

**Proof sketch.** The graph of the field is opened, and it shows what the view holds. -/
theorem exists_start (config : Config) {txn : WriteTransaction} {name : String}
    {field : FieldRecord} (h : txn.view.Sound ledger)
    (hfind : Catalog.find txn.view name = .ok field) :
    ∃ session, start config txn name = .ok session ∧ session.txn = txn ∧ session.field = field ∧
      session.Running ledger [] := by
  obtain ⟨rfl, hvalid⟩ := h.valid hfind
  obtain ⟨contents, hholds, hsound, hbacked⟩ := h.graph field.name field hfind
  obtain ⟨graph, hload, hshows⟩ := FieldGraph.exists_load hholds
  refine ⟨_, by rw [start, hfind, Except.ok_bind, hload, Except.ok_bind, Except.pure_eq_ok], rfl,
    rfl, ?_⟩
  exact {
    failure := rfl
    registered := rfl
    view := h
    field := hfind
    graph := ⟨contents, contents, hholds, hshows, by rwa [List.append_nil], hbacked,
      fun other field' hne hother page hpage => by
        rw [← hholds.isSome_get?_container] at hpage
        exact h.disjoint field.name other field field' (Ne.symm hne) hfind hother page hpage⟩ }

namespace Running

/-- The invariant does not depend on the source of levels. -/
lemma congr (h : session.Running ledger added) {session' : Registration}
    (htxn : session'.txn = session.txn) (hfield : session'.field = session.field)
    (hgraph : session'.graph = session.graph)
    (hregistered : session'.registered = session.registered)
    (hfailure : session'.failure = session.failure) : session'.Running ledger added where
  failure := hfailure.trans h.failure
  registered := hregistered.trans h.registered
  view := by rw [htxn]; exact h.view
  field := by rw [htxn, hfield]; exact h.field
  graph := by rw [htxn, hfield, hgraph]; exact h.graph

/-- What a session has registered does not depend on its generator. -/
lemma withGenerator (h : session.Running ledger added) (generator : Generator) :
    ({ session with generator } : Registration).Running ledger added :=
  h.congr rfl rfl rfl rfl rfl

/-- **A vector that is admitted is registered** at any level.

**Proof sketch.** The transaction has at most handed out one more run, which belongs to no field
yet. -/
theorem exists_registerAt (h : session.Running ledger added) {vector : Accepted}
    (hadmits : Admits session.field (ledger session.field.name ++ added) vector)
    (hstored : vector.stored.length ≤ maxStoredLength)
    (hpages : session.txn.nextPage.toNat + UInt32.size ≤ UInt64.size) {level : Nat}
    (hlevel : level ≤ maxLevel) :
    ∃ session', session.registerAt vector.id.raw vector.raw.length vector.stored level =
        (session', .ok ()) ∧ session'.Running ledger (added ++ [vector]) ∧
      session'.field = session.field := by
  obtain ⟨base, contents, hholds, hshows, hsound, hbacked, hapart⟩ := h.graph
  obtain ⟨_, hvalid⟩ := h.view.valid h.field
  have hraw : vector.raw.length < UInt64.size := by
    have hle := le_encodedLength session.field.options.source session.field.options.destination
      vector.raw.length
    have hlength : vector.stored.length = encodedLength session.field.options.source
        session.field.options.destination vector.raw.length :=
      (length_encodeVector hadmits.encoded).1
    have hbound : 32 * maxStoredLength + 3 < UInt64.size := by decide
    omega
  obtain ⟨txn', graph', next, hinsert, hextends, hshows', hsound', hbacked', hnew⟩ :=
    exists_insert hvalid.options hshows hsound hbacked hpages hadmits hraw hstored hlevel
  have hget := hextends.sameEntries.get?
  have hfind : ∀ name, Catalog.find txn'.view name = Catalog.find session.txn.view name :=
    fun name => by rw [Catalog.find, Catalog.find, hget]
  refine ⟨{ session with txn := txn', graph := graph', registered := session.registered + 1 }, ?_,
    ?_, rfl⟩
  · simp only [registerAt, hinsert]
  exact {
    failure := h.failure
    registered := by rw [List.length_append, List.length_singleton, h.registered]
    view := h.view.extends_txn hextends
    field := (hfind _).trans h.field
    graph := by
      refine ⟨base, next, h.view.holds_extends_txn h.field hholds hextends, hshows',
        by rwa [← List.append_assoc], hbacked', fun other field hne hother page hpage => ?_⟩
      rw [hfind] at hother
      rw [hget]
      rcases hnew page hpage with hold | hfresh
      · exact hapart other field hne hother page hold
      · exact h.view.get?_container_eq_none hother hfresh }

/-- **An insertion that fails** because the vector is too long closes the session. -/
theorem exists_registerAt_eq_error (h : session.Running ledger added) {vector : Accepted}
    (hadmits : Admits session.field (ledger session.field.name ++ added) vector)
    (hlong : maxStoredLength < vector.stored.length)
    (hpages : session.txn.nextPage.toNat + UInt32.size ≤ UInt64.size) (level : Nat) :
    ∃ session' e, session.registerAt vector.id.raw vector.raw.length vector.stored level =
        (session', .error e) ∧ session'.failure ≠ none ∧ session.txn.Extends session'.txn := by
  obtain ⟨base, contents, _, hshows, hsound, _, _⟩ := h.graph
  obtain ⟨txn', e, hinsert, hextends⟩ :=
    exists_insert_eq_error hshows hsound hpages hadmits hlong level
  refine ⟨{ session with txn := txn', failure := some (vector.id.raw, e.message) },
    .registrationFailed vector.id.raw e, ?_, Option.some_ne_none _, hextends⟩
  simp only [registerAt, hinsert]

/-- A vector that passes the check is registered at the level that is given, or at one that is
drawn, which changes nothing but the source of levels. -/
lemma exists_registerAtLevel_eq {id : UInt64} {raw stored : Bytes}
    (hcheck : session.check id raw = .ok stored) {level : Option Nat}
    (hlevel : ∀ l, level = some l → l ≤ maxLevel) :
    ∃ generator chosen, chosen ≤ maxLevel ∧ session.registerAtLevel id raw level =
      ({ session with generator } : Registration).registerAt id raw.length stored chosen := by
  cases level with
  | some chosen =>
    exact ⟨session.generator, chosen, hlevel chosen rfl, by simp only [registerAtLevel, hcheck]⟩
  | none =>
    obtain ⟨generator, chosen, hchosen, hdraw⟩ := session.exists_drawLevel
    exact ⟨generator, chosen, hchosen, by simp only [registerAtLevel, register, hcheck, hdraw]⟩

/-- **A vector that is admitted is registered**, at a level that is given or drawn. -/
theorem exists_register (h : session.Running ledger added) {vector : Accepted}
    (hadmits : Admits session.field (ledger session.field.name ++ added) vector)
    (hstored : vector.stored.length ≤ maxStoredLength)
    (hpages : session.txn.nextPage.toNat + UInt32.size ≤ UInt64.size) {level : Option Nat}
    (hlevel : ∀ l, level = some l → l ≤ maxLevel) :
    ∃ session', session.registerAtLevel vector.id.raw vector.raw level = (session', .ok ()) ∧
      session'.Running ledger (added ++ [vector]) ∧ session'.field = session.field := by
  obtain ⟨base, contents, _, hshows, hsound, _, _⟩ := h.graph
  obtain ⟨generator, chosen, hchosen, hregister⟩ :=
    exists_registerAtLevel_eq (check_eq_ok h.failure hshows hsound hadmits) hlevel
  rw [hregister]
  exact (h.withGenerator generator).exists_registerAt hadmits hstored hpages hchosen

/-- **Registering a vector**, at a level that is given or drawn, refuses it for one of four reasons
and leaves the session as it was, or accepts it. Only a vector that is too long for any page run
makes the session fail.

**Proof sketch.** The check refuses the vector or admits it. An admitted one is inserted at a level
that is given or drawn, which fails exactly if it is too long. -/
theorem register_cases (h : session.Running ledger added) (id : UInt64) (raw : Bytes)
    (hpages : session.txn.nextPage.toNat + UInt32.size ≤ UInt64.size) {level : Option Nat}
    (hlevel : ∀ l, level = some l → l ≤ maxLevel) :
    (∃ e, session.registerAtLevel id raw level = (session, .error e) ∧ IsRefusal e) ∨
      (∃ session' stored, session.registerAtLevel id raw level = (session', .ok ()) ∧
        (Codec.ofOptions session.field.options).encode raw = .ok stored ∧
        session'.Running ledger (added ++ [⟨⟨id⟩, raw, stored⟩])) ∨
      maxStoredLength < raw.length + 4 ∧ ∃ session' e,
        session.registerAtLevel id raw level = (session', .error e) ∧ session'.failure ≠ none ∧
        session.txn.Extends session'.txn := by
  obtain ⟨base, contents, _, hshows, hsound, _, _⟩ := h.graph
  obtain ⟨_, hvalid⟩ := h.view.valid h.field
  rcases check_cases hvalid.options h.failure hshows hsound id raw with
    ⟨e, hcheck, hrefusal⟩ | ⟨stored, hcheck, hadmits⟩
  · refine .inl ⟨e, ?_, hrefusal⟩
    cases level <;> simp only [registerAtLevel, register, hcheck]
  by_cases hlong : maxStoredLength < stored.length
  · have hle := encodedLength_le session.field.options.source session.field.options.destination
      raw.length
    have hlength : stored.length = encodedLength session.field.options.source
        session.field.options.destination raw.length := (length_encodeVector hadmits.encoded).1
    obtain ⟨generator, chosen, _, hregister⟩ := exists_registerAtLevel_eq hcheck hlevel
    rw [hregister]
    exact .inr (.inr ⟨by omega, (h.withGenerator generator).exists_registerAt_eq_error hadmits hlong
      hpages chosen⟩)
  · obtain ⟨session', hresult, hnext, _⟩ :=
      h.exists_register hadmits (Nat.not_lt.mp hlong) hpages hlevel
    exact .inr (.inl ⟨session', stored, hresult, hadmits.encoded, hnext⟩)

/-- **Writing a session into its transaction** succeeds. The transaction holds then what the graph
of the session shows, and the field has accepted what the session has registered.

**Proof sketch.** Every part of the graph can be stored, so that it is written, and the view is
sound for the vectors from before and those of the session. -/
theorem exists_flushed (h : session.Running ledger added) :
    ∃ base contents txn', session.graph.Shows session.field base contents ∧
      session.commit = .ok (added.length, txn') ∧
      FieldGraph.Flushed session.field.name contents session.txn txn' ∧
      txn'.view.Sound (Function.update ledger session.field.name
        (ledger session.field.name ++ added)) := by
  obtain ⟨base, contents, hholds, hshows, hsound, hbacked, hapart⟩ := h.graph
  obtain ⟨hname, hvalid⟩ := h.view.valid h.field
  obtain ⟨txn', hflush, hflushed⟩ := hshows.exists_flush (hsound.fits hvalid.options)
    (h.view.slash_notMem h.field) hholds fun page container hcontainer =>
      (hbacked page container hcontainer).2
  refine ⟨base, contents, txn', hshows, ?_, hflushed,
    h.view.flushed h.field hflushed hsound hbacked hapart⟩
  rw [commit, h.failure, hflush, Except.ok_bind, h.registered, Except.pure_eq_ok]

/-- **Committing a session** succeeds. It answers how many vectors have been registered, and the
field has then accepted them. -/
theorem exists_commit (h : session.Running ledger added) :
    ∃ txn', session.commit = .ok (added.length, txn') ∧ txn'.base = session.txn.base ∧
      (∀ name, Catalog.find txn'.view name = Catalog.find session.txn.view name) ∧
      txn'.view.Sound (Function.update ledger session.field.name
        (ledger session.field.name ++ added)) := by
  obtain ⟨_, _, txn', _, hcommit, hflushed, hsound⟩ := h.exists_flushed
  exact ⟨txn', hcommit, hflushed.base, Snapshot.Sound.find_of_flushed hflushed, hsound⟩

end Running

end Registration

end Proximity

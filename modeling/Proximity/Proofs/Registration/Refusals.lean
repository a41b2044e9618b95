import Proximity.Proofs.Index.Founding
import Proximity.Proofs.Registration.Calls

set_option relaxedAutoImplicit false
set_option autoImplicit false

/-!
# Calls that are refused leave no trace

A session on a field that is not damaged takes a call if it can be read, if the vector has a name
and a form that the field allows, and if it is new. Which calls those are can be said from the
opened session and the calls that have been taken since. A call that is refused does not even draw a
level, so the calls that are taken do the same without it.

## Main definitions

* `Proximity.Registration.Acceptable` — a call that a session is to take.
* `Proximity.Registration.taken` — the calls that a session does take.
* `Proximity.Registration.Took` — a session that has taken some calls since it was opened.

## Main results

* `Proximity.Registration.Took.acceptable_iff` — acceptable calls are those the field admits.
* `Proximity.Registration.Took.perform_cases` — one call is taken, or leaves the session as it is.
* `Proximity.Registration.Took.exists_performAll`, `Proximity.Registration.Took.performAll_taken` —
  any calls.
* `Proximity.Index.Reachable.refusals_invisible` — which calls are taken, and that the others leave
  no trace.
-/

namespace Proximity

/-- The numbers that a vector may be registered under are the positive ones that fit into 63
bits. -/
lemma VectorId.accepted_iff {id : UInt64} :
    VectorId.accepted id = true ↔ 1 ≤ id.toNat ∧ id.toNat < 2 ^ 63 := by
  rw [VectorId.accepted, Bool.and_eq_true, decide_eq_true_eq, decide_eq_true_eq,
    UInt64.lt_iff_toNat_lt, UInt64.le_iff_toNat_le]
  have hzero : (0 : UInt64).toNat = 0 := rfl
  have hgreatest : VectorId.greatest.toNat = 2 ^ 63 - 1 := rfl
  omega

namespace Registration

variable {opened session : Registration} {ledger : Ledger} {added : List Accepted}
  {before calls : List Call} {call : Call} {raw : Bytes}

/-! ## Which calls are taken -/

/-- **A call is acceptable** to a session that has been opened and has taken some calls since: it
can be read, its number can name a vector, what it gives is a vector of the source precision and has
the length that the field has fixed, or else that of the calls taken before, and neither has the
transaction a node of that name nor has a call with it been taken. -/
structure Acceptable (opened : Registration) (before : List Call) (call : Call) (raw : Bytes) :
    Prop where
  given : call.given = .ok raw
  id_pos : 1 ≤ call.id.toNat
  id_lt : call.id.toNat < 2 ^ 63
  isVector : opened.field.options.source.IsVector raw
  fixedLength : 0 < opened.field.options.vectorBytes →
    raw.length = opened.field.options.vectorBytes
  length : 0 < opened.graph.header.rawLength → raw.length = opened.graph.header.rawLength
  length_before : ∀ earlier ∈ before, ∀ other, earlier.given = .ok other →
    other.length = raw.length
  new : opened.txn.get? (RecordKey.node opened.field.name ⟨call.id⟩).bytes = none
  new_before : ∀ earlier ∈ before, earlier.id ≠ call.id

/-- The calls that a session takes. -/
def taken (session : Registration) : List Call → List Call
  | [] => []
  | call :: calls =>
    match session.perform call with
    | (next, .ok _) => call :: next.taken calls
    | (next, .error _) => next.taken calls

/-- No stored form of a vector that a call gives is too long for any page run. -/
def FitsRun (opened : Registration) (call : Call) : Prop :=
  ∀ raw stored, call.given = .ok raw →
    (Codec.ofOptions opened.field.options).encode raw = .ok stored →
      stored.length ≤ maxStoredLength

/-- **A session has taken some calls** since it was opened: it goes on without failing, and it has
registered what these calls give. -/
structure Took (opened session : Registration) (ledger : Ledger) (before : List Call)
    (added : List Accepted) : Prop where
  origin : opened.Running ledger []
  running : session.Running ledger added
  field : session.field = opened.field
  ids : added.map (fun vector => vector.id.raw) = before.map Call.id
  given : added.map (fun vector => Except.ok vector.raw) = before.map Call.given

/-- A field that is not damaged has a node for each vector that it has accepted, and no others. -/
lemma Running.get?_node_eq_none_iff (h : opened.Running ledger added) (id : VectorId) :
    opened.txn.get? (RecordKey.node opened.field.name id).bytes = none ↔
      id ∉ (ledger opened.field.name).map Accepted.id := by
  obtain ⟨contents, hholds, hsound, _⟩ := h.view.graph _ _ h.field
  have hnode := hholds.node id
  rw [← hsound.node_eq_none_iff, ← WriteTransaction.get?_view]
  constructor
  · intro hnone
    rw [hnone, Option.map_none] at hnode
    exact Option.map_eq_none_iff.mp hnode.symm
  · intro hnone
    rw [hnone, Option.map_none] at hnode
    exact Option.map_eq_none_iff.mp hnode

/-- A session that has registered nothing knows the length of the vectors of its field, if there are
any.

**Proof sketch.** The length in the header is positive once there is a vector, and it is that of all
vectors. -/
lemma Running.length_iff (h : opened.Running ledger []) {length : Nat} :
    (0 < opened.graph.header.rawLength → length = opened.graph.header.rawLength) ↔
      ∀ other ∈ ledger opened.field.name, other.raw.length = length := by
  obtain ⟨base, contents, _, hshows, hsound, _, _⟩ := h.graph
  rw [List.append_nil] at hsound
  rw [hshows.header]
  constructor
  · intro hlength other hother
    obtain ⟨_, hcheck, _⟩ := Except.bind_eq_ok_iff.mp (hsound.encoded other hother)
    have hpos := (Encoding.pos_of_check hcheck).1
    rw [hsound.rawLength other hother] at hpos ⊢
    exact (hlength hpos).symm
  · intro hlength hpos
    have hne : ledger opened.field.name ≠ [] := fun hnil => by
      rw [hsound.blank hnil] at hpos
      exact Nat.lt_irrefl 0 hpos
    obtain ⟨other, hother⟩ := List.exists_mem_of_ne_nil _ hne
    rw [← hlength other hother, hsound.rawLength other hother]

namespace Took

/-- **The acceptable calls** are those that give a vector which the field admits.

**Proof sketch.** Being admitted is about the vectors of the field and those of the session, and
these are the calls that have been taken. -/
theorem acceptable_iff (h : Took opened session ledger before added)
    (hgiven : call.given = .ok raw) :
    opened.Acceptable before call raw ↔ ∃ stored, Admits session.field
      (ledger session.field.name ++ added) ⟨⟨call.id⟩, raw, stored⟩ := by
  obtain ⟨_, hvalid⟩ := h.origin.view.valid h.origin.field
  have hadded : ∀ vector ∈ added, ∃ earlier ∈ before, earlier.given = .ok vector.raw := by
    intro vector hvector
    have hmem := List.mem_map_of_mem (f := fun v : Accepted => Except.ok (ε := IndexError) v.raw)
      hvector
    rw [h.given] at hmem
    exact List.mem_map.mp hmem
  rw [h.field]
  constructor
  · intro hcall
    obtain ⟨stored, hencode⟩ := (exists_encodeVector_iff hvalid.options.converts).mpr hcall.isVector
    refine ⟨stored, VectorId.accepted_iff.mpr ⟨hcall.id_pos, hcall.id_lt⟩, hencode,
      hcall.fixedLength, fun other hother => ?_, fun hmem => ?_⟩
    · rcases List.mem_append.mp hother with hold | hnew
      · exact h.origin.length_iff.mp hcall.length other hold
      · obtain ⟨earlier, hearlier, hsame⟩ := hadded other hnew
        exact hcall.length_before earlier hearlier other.raw hsame
    · rw [List.map_append] at hmem
      rcases List.mem_append.mp hmem with hold | hnew
      · exact (h.origin.get?_node_eq_none_iff ⟨call.id⟩).mp hcall.new hold
      · obtain ⟨vector, hvector, hid⟩ := List.mem_map.mp hnew
        have hmem := List.mem_map_of_mem (f := fun v : Accepted => v.id.raw) hvector
        rw [h.ids] at hmem
        obtain ⟨earlier, hearlier, hsame⟩ := List.mem_map.mp hmem
        exact hcall.new_before earlier hearlier (hsame.trans (congrArg VectorId.raw hid))
  · rintro ⟨stored, hadmits⟩
    obtain ⟨hpos, hlt⟩ := VectorId.accepted_iff.mp hadmits.accepted
    refine ⟨hgiven, hpos, hlt, (exists_encodeVector_iff hvalid.options.converts).mp
      ⟨stored, hadmits.encoded⟩, hadmits.fixedLength, h.origin.length_iff.mpr fun other hother =>
        hadmits.length other (List.mem_append_left _ hother), ?_, ?_, ?_⟩
    · intro earlier hearlier other hother
      have hmem := List.mem_map_of_mem (f := Call.given) hearlier
      rw [← h.given, hother] at hmem
      obtain ⟨vector, hvector, hsame⟩ := List.mem_map.mp hmem
      rw [← Except.ok.inj hsame]
      exact hadmits.length vector (List.mem_append_right _ hvector)
    · refine (h.origin.get?_node_eq_none_iff ⟨call.id⟩).mpr fun hold => hadmits.new ?_
      rw [List.map_append]
      exact List.mem_append_left _ hold
    · intro earlier hearlier hid
      have hmem := List.mem_map_of_mem (f := Call.id) hearlier
      rw [← h.ids] at hmem
      obtain ⟨vector, hvector, hsame⟩ := List.mem_map.mp hmem
      refine hadmits.new ?_
      rw [List.map_append]
      refine List.mem_append_right _ (List.mem_map.mpr ⟨vector, hvector, ?_⟩)
      exact congrArg VectorId.mk (hsame.trans hid)

/-- **One call** is taken if it is acceptable, and otherwise leaves the session as it is.

**Proof sketch.** A call that cannot be read is refused. One that can is refused or admitted by the
check, and an admitted one is inserted. -/
theorem perform_cases (h : Took opened session ledger before added) (hfits : opened.FitsRun call)
    (hpages : session.txn.nextPage.toNat + UInt32.size ≤ UInt64.size) :
    (∃ next added', session.perform call = (next, .ok ()) ∧
        (∃ raw, opened.Acceptable before call raw) ∧
        Took opened next ledger (before ++ [call]) added') ∨
      (∃ e, session.perform call = (session, .error e)) ∧
        ∀ raw, ¬ opened.Acceptable before call raw := by
  rw [perform_eq]
  cases hgiven : call.given with
  | error e =>
    refine .inr ⟨⟨e, rfl⟩, fun raw hcall => ?_⟩
    rw [hcall.given] at hgiven
    cases hgiven
  | ok raw =>
    obtain ⟨base, contents, _, hshows, hsound, _, _⟩ := h.running.graph
    obtain ⟨_, hvalid⟩ := h.running.view.valid h.running.field
    rcases check_cases hvalid.options h.running.failure hshows hsound call.id raw with
      ⟨e, hcheck, _⟩ | ⟨stored, _, hadmits⟩
    · refine .inr ⟨⟨e, by simp only [registerRead, register, hcheck]⟩, fun raw' hcall => ?_⟩
      obtain rfl := Except.ok.inj (hcall.given.symm.trans hgiven)
      obtain ⟨stored, hadmits⟩ := (h.acceptable_iff hgiven).mp hcall
      have hok := check_eq_ok h.running.failure hshows hsound hadmits
      rw [hcheck] at hok
      cases hok
    · have hstored : stored.length ≤ maxStoredLength :=
        hfits raw stored hgiven (h.field ▸ hadmits.encoded)
      have hdrawn : ∀ l, (none : Option Nat) = some l → l ≤ maxLevel := by simp
      obtain ⟨next, hregister, hnext, hfield⟩ :=
        h.running.exists_register hadmits hstored hpages hdrawn
      refine .inl ⟨next, added ++ [⟨⟨call.id⟩, raw, stored⟩], hregister,
        ⟨raw, (h.acceptable_iff hgiven).mpr ⟨stored, hadmits⟩⟩, h.origin, hnext,
        hfield.trans h.field, ?_, ?_⟩
      · rw [List.map_append, List.map_append, h.ids]
        rfl
      · rw [List.map_append, List.map_append, h.given, List.map_singleton, List.map_singleton,
          hgiven]

end Took

/-! ## Any number of calls -/

/-- Any calls hand out no more than one run each. -/
lemma grows_performAll (hpages : session.txn.nextPage.toNat + calls.length * UInt32.size ≤
    UInt64.size) : session.txn.Grows calls.length (session.performAll calls).1.txn := by
  induction calls generalizing session with
  | nil => exact .refl session.txn
  | cons call calls ih =>
    rw [List.length_cons, Nat.add_comm calls.length] at hpages ⊢
    have hfirst := (session.continues_perform call (WriteTransaction.suffices_one hpages)).grows
    exact hfirst.trans (ih (hfirst.suffices_more hpages))

namespace Took

/-- The first of some calls is taken, or it leaves the session as it is. Either way page numbers
suffice for the others. -/
lemma first_cases (h : Took opened session ledger before added)
    (hfits : ∀ other ∈ call :: calls, opened.FitsRun other)
    (hpages : session.txn.nextPage.toNat + (call :: calls).length * UInt32.size ≤ UInt64.size) :
    (∃ next added', session.perform call = (next, .ok ()) ∧
        Took opened next ledger (before ++ [call]) added' ∧
        next.txn.nextPage.toNat + calls.length * UInt32.size ≤ UInt64.size) ∨
      ∃ e, session.perform call = (session, .error e) ∧
        session.txn.nextPage.toNat + calls.length * UInt32.size ≤ UInt64.size := by
  rw [List.length_cons, Nat.add_comm calls.length] at hpages
  have hone := WriteTransaction.suffices_one hpages
  have hmore := (session.continues_perform call hone).grows.suffices_more hpages
  rcases h.perform_cases (hfits call List.mem_cons_self) hone with
    ⟨next, added', hperform, _, hnext⟩ | ⟨⟨e, hperform⟩, _⟩
  · rw [hperform] at hmore
    exact .inl ⟨next, added', hperform, hnext, hmore⟩
  · rw [hperform] at hmore
    exact .inr ⟨e, hperform, hmore⟩

/-- **A session goes on** with any calls, and has then taken those that it has taken.

**Proof sketch.** Induction on the calls. -/
theorem exists_performAll (h : Took opened session ledger before added)
    (hfits : ∀ call ∈ calls, opened.FitsRun call)
    (hpages : session.txn.nextPage.toNat + calls.length * UInt32.size ≤ UInt64.size) :
    ∃ added', Took opened (session.performAll calls).1 ledger (before ++ session.taken calls)
      added' := by
  induction calls generalizing session before added with
  | nil => exact ⟨added, by rwa [taken, List.append_nil]⟩
  | cons call calls ih =>
    have hrest := List.forall_mem_of_forall_mem_cons hfits
    rw [performAll_cons, taken]
    rcases h.first_cases hfits hpages with
      ⟨next, added', hperform, hnext, hmore⟩ | ⟨e, hperform, hmore⟩
    · rw [hperform]
      obtain ⟨last, hlast⟩ := ih hnext hrest hmore
      exact ⟨last, by rwa [List.append_assoc] at hlast⟩
    · rw [hperform]
      exact ih h hrest hmore

/-- **The calls that a session takes do the same without the others**, and get the same answers.

**Proof sketch.** Induction on the calls. One that is refused leaves the session, so that it makes
no difference to the rest. -/
theorem performAll_taken (h : Took opened session ledger before added)
    (hfits : ∀ call ∈ calls, opened.FitsRun call)
    (hpages : session.txn.nextPage.toNat + calls.length * UInt32.size ≤ UInt64.size) :
    session.performAll (session.taken calls) =
      ((session.performAll calls).1, (session.performAll calls).2.filter Except.isOk) := by
  induction calls generalizing session before added with
  | nil => rfl
  | cons call calls ih =>
    have hrest := List.forall_mem_of_forall_mem_cons hfits
    rw [performAll_cons, taken]
    rcases h.first_cases hfits hpages with
      ⟨next, added', hperform, hnext, hmore⟩ | ⟨e, hperform, hmore⟩
    · rw [hperform]
      have hsame := ih hnext hrest hmore
      simp only [performAll_cons, hperform, hsame]
      rfl
    · rw [hperform]
      exact ih h hrest hmore

/-- **The answer to each of some calls** says whether it was acceptable.

**Proof sketch.** The session that has been through the earlier calls has taken some of them, and it
takes the call or refuses it. -/
theorem answer_iff (h : Took opened session ledger before added) {earlier later : List Call}
    (hfits : ∀ other ∈ earlier ++ call :: later, opened.FitsRun other)
    (hpages : session.txn.nextPage.toNat + (earlier ++ call :: later).length * UInt32.size ≤
      UInt64.size) :
    ((session.performAll earlier).1.perform call).2 = .ok () ↔
      ∃ raw, opened.Acceptable (before ++ session.taken earlier) call raw := by
  have hsplit : (earlier ++ call :: later).length = earlier.length + (1 + later.length) := by
    rw [List.length_append, List.length_cons]
    omega
  rw [hsplit] at hpages
  have hearlier := WriteTransaction.suffices_le hpages (Nat.le_add_right earlier.length _)
  have hbefore : ∀ other ∈ earlier, opened.FitsRun other := fun other hother =>
    hfits other (by simp [hother])
  obtain ⟨added', hbetween⟩ := h.exists_performAll hbefore hearlier
  have hone := WriteTransaction.suffices_one ((grows_performAll hearlier).suffices_more hpages)
  rcases hbetween.perform_cases (hfits call (by simp)) hone with
    ⟨next, _, hperform, hcall, _⟩ | ⟨⟨e, hperform⟩, hnot⟩
  · rw [hperform]
    exact ⟨fun _ => hcall, fun _ => rfl⟩
  · rw [hperform]
    exact ⟨fun hok => (by cases hok), fun ⟨raw, hcall⟩ => absurd hcall (hnot raw)⟩

end Took

/-- A session that has been opened has taken nothing. -/
lemma took_of_running (h : opened.Running ledger []) (generator : Generator) :
    Took opened { opened with generator } ledger [] [] where
  origin := h
  running := h.withGenerator generator
  field := rfl
  ids := rfl
  given := rfl

/-- Vectors are short enough for a page run if they are given with fewer bytes than one holds. -/
lemma fitsRun_of_short (h : ∀ raw, call.given = .ok raw → raw.length + 4 ≤ maxStoredLength) :
    opened.FitsRun call := by
  intro raw stored hgiven hencode
  rw [(length_encodeVector hencode).1]
  exact (encodedLength_le _ _ _).trans (h raw hgiven)

end Registration

/-! ## Sessions of an index -/

namespace Index

open Registration

/-- **Calls that are refused leave no trace.** A session is opened on a field of an index, and draws
its levels from any source; page numbers suffice for the calls. Then:

* a call is taken exactly if it is acceptable after the calls that have been taken before;
* without the calls that are refused, the session ends in the same state, and the calls that are
  taken get the same answers;
* the session has registered as many vectors as it has taken calls, and it can be committed, which
  leaves the same transaction either way.

**Proof sketch.** The session is opened in a sound state, so that it is running and has taken no
calls. The lemmas above are applied to it. -/
theorem Reachable.refusals_invisible {allowed : Operation → Prop} {index : Index}
    (h : Reachable allowed index) {txn : WriteTransaction}
    (hwriter : index.store.writer = some txn) {config : Config} {name : String}
    {opened session : Registration} (hstart : Registration.start config txn name = .ok opened)
    (hseed : ∃ generator, session = { opened with generator }) {calls : List Call}
    (hfits : ∀ call ∈ calls, opened.FitsRun call)
    (hpages : txn.nextPage.toNat + calls.length * UInt32.size ≤ UInt64.size) :
    (∀ earlier call later, calls = earlier ++ call :: later →
      (((session.performAll earlier).1.perform call).2 = .ok () ↔
        ∃ raw, opened.Acceptable (session.taken earlier) call raw)) ∧
    session.performAll (session.taken calls) =
      ((session.performAll calls).1, (session.performAll calls).2.filter Except.isOk) ∧
    (session.performAll calls).1.registered = (session.taken calls).length ∧
    ∃ txn', (session.performAll calls).1.commit = .ok ((session.taken calls).length, txn') ∧
      (session.performAll (session.taken calls)).1.commit =
        .ok ((session.taken calls).length, txn') := by
  obtain ⟨generator, rfl⟩ := hseed
  obtain ⟨field, hfind, _⟩ := Except.bind_eq_ok_iff.mp hstart
  obtain ⟨opened', hstart', htxn, _, hrunning⟩ :=
    Registration.exists_start config (h.sound.writer txn hwriter) hfind
  obtain rfl := Except.ok.inj (hstart.symm.trans hstart')
  have htook := took_of_running hrunning generator
  have hpages' : ({ opened with generator } : Registration).txn.nextPage.toNat +
      calls.length * UInt32.size ≤ UInt64.size := by rwa [← htxn] at hpages
  have hsame := htook.performAll_taken hfits hpages'
  obtain ⟨added, hlast⟩ := htook.exists_performAll hfits hpages'
  have hcount : added.length =
      (({ opened with generator } : Registration).taken calls).length := by
    have hlength := congrArg List.length hlast.ids
    rwa [List.length_map, List.length_map, List.nil_append] at hlength
  obtain ⟨txn', hcommit, _⟩ := hlast.running.exists_commit
  rw [hcount] at hcommit
  refine ⟨?_, hsame, hlast.running.registered.trans hcount, txn', hcommit, by rwa [hsame]⟩
  rintro earlier call later rfl
  exact htook.answer_iff hfits hpages'

/-- Calls of which some are refused: a name that is taken already, a text that is not base64, and a
number that cannot be a name. -/
def mixed : List Call :=
  [.raw 1 [0, 0, 0, 0], .raw 1 [0, 0, 0, 0], .base64 2 "%", .raw 0 [0, 0, 0, 0],
    .raw 3 [0, 0, 128, 63]]

/-- A new field takes the first of them, and the session can be committed without the others.

**Proof sketch.** The field is created by a run, and all calls are short. -/
theorem exists_refusals_mixed :
    ∃ index txn opened, Reachable Operation.IsShort index ∧ index.store.writer = some txn ∧
      Registration.start {} txn "v" = .ok opened ∧ (∀ call ∈ mixed, opened.FitsRun call) ∧
      txn.nextPage.toNat + mixed.length * UInt32.size ≤ UInt64.size ∧
      (opened.perform (.raw 1 [0, 0, 0, 0])).2 = .ok () ∧
      opened.performAll (opened.taken mixed) =
        ((opened.performAll mixed).1, (opened.performAll mixed).2.filter Except.isOk) := by
  obtain ⟨hcreated, txn, field, hindex, hfind, hname, hoptions, hpage⟩ :=
    @exists_run_created "v" (.ofShape 2 1) (by decide)
      (FieldOptions.validate_eq_ok_iff.mp (by decide)) ⟨by decide, by decide, by decide⟩
  have hwriter : (run [.begin, .create "v" (.ofShape 2 1)]).store.writer = some txn := by
    rw [hindex]
    rfl
  obtain ⟨opened, hstart, htxn, hfield, hrunning⟩ :=
    Registration.exists_start {} (hcreated.sound.writer txn hwriter) hfind
  have hfits : ∀ call ∈ mixed, opened.FitsRun call := by
    intro call hcall
    refine fitsRun_of_short fun raw hgiven => ?_
    simp only [mixed, List.mem_cons, List.not_mem_nil, or_false] at hcall
    rcases hcall with rfl | rfl | rfl | rfl | rfl
    · exact Except.ok.inj hgiven ▸ by decide
    · exact Except.ok.inj hgiven ▸ by decide
    · cases hgiven
    · exact Except.ok.inj hgiven ▸ by decide
    · exact Except.ok.inj hgiven ▸ by decide
  have hpages : txn.nextPage.toNat + mixed.length * UInt32.size ≤ UInt64.size := by
    rw [hpage]
    decide
  obtain ⟨hanswer, hsame, _⟩ :=
    hcreated.refusals_invisible hwriter hstart ⟨opened.generator, rfl⟩ hfits hpages
  refine ⟨_, txn, opened, hcreated, hwriter, hstart, hfits, hpages, ?_, hsame⟩
  refine (hanswer [] _ (mixed.drop 1) rfl).mpr ⟨[0, 0, 0, 0], ?_⟩
  have hpending : (run [.begin, .create "v" (.ofShape 2 1)]).pending opened.field.name = [] := by
    rw [hindex]
    rfl
  exact {
    given := rfl
    id_pos := by decide
    id_lt := by decide
    isVector := by
      rw [hfield, hoptions]
      exact Encoding.check_eq_ok_iff.mp rfl
    fixedLength := by
      rw [hfield, hoptions]
      exact fun hpos => absurd hpos (by decide)
    length := hrunning.length_iff.mpr (by simp [hpending])
    length_before := fun earlier hearlier => absurd hearlier List.not_mem_nil
    new := (hrunning.get?_node_eq_none_iff _).mpr (by simp [hpending])
    new_before := fun earlier hearlier => absurd hearlier List.not_mem_nil }

end Index

end Proximity

import Proximity.Proofs.Index.Founding
import Proximity.Proofs.Registration.Twins

set_option relaxedAutoImplicit false
set_option autoImplicit false

/-!
# Cutting work into sessions

Vectors can be registered in one session or in several, one after the other, in one write
transaction or in some that follow on each other. In the end the header of the graph, its nodes, its
containers and the page runs of these are the same, if the levels are.

## Main definitions

* `Proximity.Insertion`, `Proximity.Sitting` — a vector at a level, and a session with some of them.
* `Proximity.Sitting.run`, `Proximity.Sitting.runAll` — what sessions do to a transaction.
* `Proximity.Sitting.Affords`, `Proximity.Sitting.AllAfford` — sessions for which page numbers
  suffice.

## Main results

* `Proximity.Registration.Twins.insertAll` — twins take in vectors alike.
* `Proximity.Registration.Pursues.exists_runAll` — any sessions pursue the one that goes on.
* `Proximity.Index.Reachable.exists_agrees` — cutting work into sessions changes nothing.

## Design

The one session is never written while the others run. What they leave is compared with what it
would leave if it were written then, so that the next of them opens as its twin.
-/

namespace Proximity

/-- A vector that is registered under a name and at a level. -/
structure Insertion where
  /-- The name. -/
  id : UInt64
  /-- The vector, in the source precision of the field. -/
  raw : Bytes
  /-- The level. -/
  level : Nat

/-- A session on a field. -/
structure Sitting where
  /-- The configuration of the session. -/
  config : Config
  /-- What is registered in it. -/
  insertions : List Insertion
  /-- Whether its transaction is committed after it, and another is begun. -/
  renews : Bool

/-- The session after some vectors have been registered, as far as they are accepted. -/
def Registration.insertAll (session : Registration) (insertions : List Insertion) : Registration :=
  insertions.foldl (fun session insertion =>
    (session.registerAtLevel insertion.id insertion.raw (some insertion.level)).1) session

namespace Sitting

/-- The transaction after a session on a field. -/
def run (name : String) (sitting : Sitting) (txn : WriteTransaction) :
    Except IndexError WriteTransaction := do
  let session ← Registration.start sitting.config txn name
  let txn := (session.insertAll sitting.insertions).close .commit
  return if sitting.renews then .start txn.commit else txn

/-- The transaction after some sessions on a field, one after the other. -/
def runAll (name : String) (sittings : List Sitting) (txn : WriteTransaction) :
    Except IndexError WriteTransaction :=
  sittings.foldlM (fun txn sitting => sitting.run name txn) txn

end Sitting

namespace Registration

variable {session session' : Registration} {txn : WriteTransaction} {insertions : List Insertion}
  {sitting : Sitting} {sittings : List Sitting}

/-- An insertion, and then the others. -/
lemma insertAll_cons (session : Registration) (insertion : Insertion)
    (insertions : List Insertion) : session.insertAll (insertion :: insertions) =
      (session.registerAtLevel insertion.id insertion.raw (some insertion.level)).1.insertAll
        insertions := rfl

/-- Insertions, and then further ones. -/
lemma insertAll_append (session : Registration) (insertions more : List Insertion) :
    session.insertAll (insertions ++ more) = (session.insertAll insertions).insertAll more :=
  List.foldl_append

/-- **Page numbers suffice** for one more run at each of some insertions. -/
def Affords (session : Registration) (insertions : List Insertion) : Prop :=
  ∀ before insertion after, insertions = before ++ insertion :: after →
    (session.insertAll before).txn.nextPage.toNat + UInt32.size ≤ UInt64.size

namespace Affords

variable {insertion : Insertion} {more : List Insertion}

/-- Page numbers suffice for the first insertion. -/
lemma head (h : session.Affords (insertion :: insertions)) :
    session.txn.nextPage.toNat + UInt32.size ≤ UInt64.size :=
  h [] insertion insertions rfl

/-- Page numbers suffice for the insertions after the first one. -/
lemma tail (h : session.Affords (insertion :: insertions)) :
    (session.registerAtLevel insertion.id insertion.raw (some insertion.level)).1.Affords
      insertions := by
  intro before other after heq
  exact h (insertion :: before) other after (congrArg (insertion :: ·) heq)

/-- Page numbers suffice for the insertions that come first. -/
lemma left (h : session.Affords (insertions ++ more)) : session.Affords insertions := by
  rintro before insertion after rfl
  exact h before insertion (after ++ more) (by simp)

/-- Page numbers suffice for the insertions that come later. -/
lemma right (h : session.Affords (insertions ++ more)) :
    (session.insertAll insertions).Affords more := by
  rintro before insertion after rfl
  rw [← insertAll_append]
  exact h (insertions ++ before) insertion after (by simp)

/-- Registering some vectors goes on from the session. -/
lemma continues (h : session.Affords insertions) :
    session.Continues insertions.length (session.insertAll insertions) := by
  induction insertions generalizing session with
  | nil => exact .refl session
  | cons insertion insertions ih =>
    rw [List.length_cons, Nat.add_comm insertions.length]
    have hfirst := session.continues_registerAtLevel insertion.id insertion.raw
      (some insertion.level) h.head
    exact hfirst.trans (ih h.tail)

end Affords

/-- Page numbers suffice if they suffice for a run for each of the insertions.

**Proof sketch.** Induction on the insertions; each of them hands out one run at most. -/
lemma affords_of_le (hpages : session.txn.nextPage.toNat + insertions.length * UInt32.size ≤
    UInt64.size) : session.Affords insertions := by
  induction insertions generalizing session with
  | nil =>
    intro before insertion after heq
    cases before <;> cases heq
  | cons first insertions ih =>
    rw [List.length_cons, Nat.add_comm insertions.length] at hpages
    have hone := WriteTransaction.suffices_one hpages
    have hfirst := session.continues_registerAtLevel first.id first.raw (some first.level) hone
    intro before insertion after heq
    cases before with
    | nil => exact hone
    | cons other before =>
      obtain ⟨rfl, hrest⟩ := List.cons.inj heq
      exact ih (hfirst.grows.suffices_more hpages) before insertion after hrest

end Registration

/-! ## Sessions one after the other -/

namespace Sitting

variable {name : String} {sitting : Sitting} {sittings : List Sitting}
  {txn txn' : WriteTransaction}

/-- A session that commits, and then the others. -/
lemma runAll_cons (h : sitting.run name txn = .ok txn') :
    runAll name (sitting :: sittings) txn = runAll name sittings txn' := by
  rw [runAll, List.foldlM_cons, h, Except.ok_bind, runAll]

/-- Page numbers suffice in a session. -/
def Affords (name : String) (sitting : Sitting) (txn : WriteTransaction) : Prop :=
  ∀ session, Registration.start sitting.config txn name = .ok session →
    session.Affords sitting.insertions

/-- Page numbers suffice in each of some sessions. -/
def AllAfford (name : String) (sittings : List Sitting) (txn : WriteTransaction) : Prop :=
  ∀ before sitting after between, sittings = before ++ sitting :: after →
    runAll name before txn = .ok between → sitting.Affords name between

/-- Page numbers suffice in the first session. -/
lemma AllAfford.head (h : AllAfford name (sitting :: sittings) txn) : sitting.Affords name txn :=
  h [] sitting sittings txn rfl rfl

/-- Page numbers suffice in the sessions after the first one. -/
lemma AllAfford.tail (h : AllAfford name (sitting :: sittings) txn)
    (hrun : sitting.run name txn = .ok txn') : AllAfford name sittings txn' := by
  intro before other after between heq hbetween
  exact h (sitting :: before) other after between (congrArg (sitting :: ·) heq)
    ((runAll_cons hrun).trans hbetween)

/-- Page numbers suffice in a session if they suffice for a run for each of its insertions. -/
lemma affords_of_le
    (hpages : txn.nextPage.toNat + sitting.insertions.length * UInt32.size ≤ UInt64.size) :
    sitting.Affords name txn := by
  intro session hstart
  obtain ⟨rfl, _⟩ := Registration.exists_of_start hstart
  exact Registration.affords_of_le hpages

/-- A session hands out at most a run for each of its insertions. -/
lemma nextPage_run_le
    (hpages : txn.nextPage.toNat + sitting.insertions.length * UInt32.size ≤ UInt64.size)
    (hrun : sitting.run name txn = .ok txn') :
    txn'.nextPage.toNat ≤ txn.nextPage.toNat + sitting.insertions.length * UInt32.size := by
  obtain ⟨session, hstart, hclose⟩ := Except.bind_eq_ok_iff.mp hrun
  obtain ⟨rfl, _⟩ := Registration.exists_of_start hstart
  have hnext : txn'.nextPage = (session.insertAll sitting.insertions).txn.nextPage := by
    rw [← Registration.nextPage_close _ .commit, ← Except.ok.inj hclose]
    split <;> rfl
  rw [hnext]
  exact (Registration.affords_of_le hpages).continues.grows.nextPage_le

/-- Page numbers suffice in some sessions if they suffice for a run for each of the insertions.

**Proof sketch.** Induction on the sessions; each of them hands out one run at most for each of its
insertions. -/
lemma allAfford_of_le (hpages : txn.nextPage.toNat +
    (sittings.flatMap Sitting.insertions).length * UInt32.size ≤ UInt64.size) :
    AllAfford name sittings txn := by
  induction sittings generalizing txn with
  | nil =>
    intro before sitting after between heq
    cases before <;> cases heq
  | cons first sittings ih =>
    rw [List.flatMap_cons, List.length_append, Nat.add_mul, ← Nat.add_assoc] at hpages
    have hfirst := Nat.le_trans (Nat.le_add_right _ _) hpages
    intro before sitting after between heq hbetween
    cases before with
    | nil =>
      rw [← (List.cons.inj heq).1, ← Except.ok.inj hbetween]
      exact affords_of_le hfirst
    | cons other before =>
      obtain ⟨rfl, hrest⟩ := List.cons.inj heq
      rw [runAll, List.foldlM_cons] at hbetween
      obtain ⟨txn', hrun, hbetween⟩ := Except.bind_eq_ok_iff.mp hbetween
      refine ih ?_ before sitting after between hrest hbetween
      exact Nat.le_trans (Nat.add_le_add_right (nextPage_run_le hfirst hrun) _) hpages

end Sitting

namespace Registration

variable {session session' : Registration} {txn : WriteTransaction} {insertions : List Insertion}
  {sitting : Sitting} {sittings : List Sitting}

/-! ## Vectors that are not too long -/

/-- Insertions that a field can take in if it accepts them: their levels can be drawn, and their
vectors are not too long for any page run. -/
def Suits (field : FieldRecord) (insertions : List Insertion) : Prop :=
  ∀ insertion ∈ insertions, insertion.level ≤ maxLevel ∧ ∀ stored,
    (Codec.ofOptions field.options).encode insertion.raw = .ok stored →
      stored.length ≤ maxStoredLength

/-- **Twins take in vectors alike.**

**Proof sketch.** Induction on the insertions. -/
theorem Twins.insertAll (h : Twins session session')
    (hnext : session'.txn.nextPage = session.txn.nextPage) (hsuits : Suits session.field insertions)
    (haffords : session.Affords insertions) :
    Twins (session.insertAll insertions) (session'.insertAll insertions) ∧
      (session'.insertAll insertions).txn.nextPage =
        (session.insertAll insertions).txn.nextPage := by
  induction insertions generalizing session session' with
  | nil => exact ⟨h, hnext⟩
  | cons insertion insertions ih =>
    have hfirst := session.continues_registerAtLevel insertion.id insertion.raw
      (some insertion.level) haffords.head
    obtain ⟨hlevel, hstored⟩ := hsuits insertion (by simp)
    obtain ⟨htwins, hpage⟩ := h.registerAtLevel hnext hlevel hstored haffords.head
    rw [insertAll_cons, insertAll_cons]
    refine ih htwins hpage (fun other hother => ?_) haffords.tail
    rw [hfirst.field]
    exact hsuits other (by simp [hother])

/-- **A transaction pursues a session**: it mirrors the session, which is sound, and hands out the
same page next. -/
structure Pursues (session : Registration) (txn : WriteTransaction) : Prop where
  mirrors : Mirrors session txn
  running : ∃ ledger added, session.Running ledger added
  nextPage : txn.nextPage = session.txn.nextPage

/-- **A session on a transaction** that pursues another session makes it pursue that session
further.

**Proof sketch.** The session that is opened on the transaction is a twin of the one that is
pursued. They stay twins, so that the commit writes what the other one holds. -/
theorem Pursues.exists_run (h : Pursues session txn)
    (hsuits : Suits session.field sitting.insertions)
    (haffords : session.Affords sitting.insertions) :
    ∃ txn', sitting.run session.field.name txn = .ok txn' ∧
      Pursues (session.insertAll sitting.insertions) txn' := by
  obtain ⟨session', hstart, rfl, htwins⟩ := h.mirrors.exists_start h.running sitting.config
  obtain ⟨htwins, hpage⟩ := htwins.insertAll h.nextPage hsuits haffords
  obtain ⟨count, txn', hcommit, hmirrors, hnext⟩ := htwins.exists_commit
  have hclose : (session'.insertAll sitting.insertions).close .commit = txn' := by
    rw [close, hcommit]
  refine ⟨_, by rw [Sitting.run, hstart, Except.ok_bind, hclose, Except.pure_eq_ok], ?_⟩
  cases sitting.renews with
  | false => exact ⟨hmirrors, htwins.left, hnext.trans hpage⟩
  | true => exact ⟨hmirrors.start_commit, htwins.left, hnext.trans hpage⟩

/-- **Any sessions on a transaction** that pursues another session make it pursue that session to
the end.

**Proof sketch.** Induction on the sessions. -/
theorem Pursues.exists_runAll (h : Pursues session txn)
    (hsuits : Suits session.field (sittings.flatMap Sitting.insertions))
    (haffords : session.Affords (sittings.flatMap Sitting.insertions)) :
    ∃ txn', Sitting.runAll session.field.name sittings txn = .ok txn' ∧
      Pursues (session.insertAll (sittings.flatMap Sitting.insertions)) txn' := by
  induction sittings generalizing session txn with
  | nil => exact ⟨txn, rfl, h⟩
  | cons sitting sittings ih =>
    rw [List.flatMap_cons] at hsuits haffords ⊢
    have hfield := haffords.left.continues.field
    obtain ⟨between, hrun, hpursues⟩ := @Pursues.exists_run _ _ sitting h
      (fun insertion hin => hsuits insertion (List.mem_append_left _ hin)) haffords.left
    obtain ⟨txn', hrunAll, hlast⟩ := ih hpursues
      (by rw [hfield]; exact fun insertion hin =>
        hsuits insertion (List.mem_append_right _ hin)) haffords.right
    rw [hfield] at hrunAll
    refine ⟨txn', ?_, by rwa [insertAll_append]⟩
    rw [Sitting.runAll_cons hrun]
    exact hrunAll

/-! ## Vectors that are too long -/

/-- Insertions of which every vector is too long for any page run. -/
def Overburdens (field : FieldRecord) (insertions : List Insertion) : Prop :=
  ∀ insertion ∈ insertions, ∀ stored,
    (Codec.ofOptions field.options).encode insertion.raw = .ok stored →
      maxStoredLength < stored.length

/-- A session that has failed takes in nothing. -/
lemma insertAll_of_failure {failed : UInt64 × String} (h : session.failure = some failed)
    (insertions : List Insertion) : session.insertAll insertions = session := by
  induction insertions with
  | nil => rfl
  | cons insertion insertions ih =>
    rw [insertAll_cons]
    simp only [registerAtLevel, check_of_failure h]
    exact ih

/-- **A session that is offered vectors which are too long** refuses all of them, or fails.

**Proof sketch.** Induction on the insertions. One that is refused leaves the session, and one that
is admitted makes it fail. -/
theorem Running.insertAll_overburdened {ledger : Ledger} {added : List Accepted}
    (h : session.Running ledger added) (hlong : Overburdens session.field insertions)
    (haffords : session.Affords insertions) :
    session.insertAll insertions = session ∨ (session.insertAll insertions).failure ≠ none := by
  induction insertions with
  | nil => exact .inl rfl
  | cons insertion insertions ih =>
    obtain ⟨base, contents, _, hshows, hsound, _, _⟩ := h.graph
    obtain ⟨_, hvalid⟩ := h.view.valid h.field
    have hrest := haffords.tail
    rw [insertAll_cons]
    rcases check_cases hvalid.options h.failure hshows hsound insertion.id insertion.raw with
      ⟨e, hcheck, _⟩ | ⟨stored, hcheck, hadmits⟩
    · simp only [registerAtLevel, hcheck] at hrest ⊢
      exact ih (fun other hother => hlong other (by simp [hother])) hrest
    · have hstored := hlong insertion (by simp) stored hadmits.encoded
      obtain ⟨next, e, hregister, hfailure, _⟩ :=
        h.exists_registerAt_eq_error hadmits hstored haffords.head insertion.level
      obtain ⟨failed, hfailed⟩ := Option.ne_none_iff_exists'.mp hfailure
      simp only [registerAtLevel, hcheck, hregister, insertAll_of_failure hfailed]
      exact .inr hfailure

/-- **A session that is offered vectors which are too long** leaves the records as they are.

**Proof sketch.** If all vectors have been refused the session commits what it has found; if it has
failed it is given up. -/
theorem Mirrors.exists_run_overburdened (h : Mirrors session txn)
    (hrunning : ∃ ledger added, session.Running ledger added)
    (hlong : Overburdens session.field sitting.insertions)
    (haffords : sitting.Affords session.field.name txn) :
    ∃ txn', sitting.run session.field.name txn = .ok txn' ∧ Mirrors session txn' := by
  obtain ⟨session', hstart, rfl, htwins⟩ := h.exists_start hrunning sitting.config
  have haffords := haffords session' hstart
  obtain ⟨ledger, added, hright⟩ := htwins.right
  obtain ⟨txn', hclose, hmirrors⟩ : ∃ txn',
      (session'.insertAll sitting.insertions).close .commit = txn' ∧ Mirrors session txn' := by
    rcases hright.insertAll_overburdened (htwins.field ▸ hlong) haffords with hsame | hfailure
    · obtain ⟨count, txn', hcommit, hmirrors, _⟩ := htwins.exists_commit
      exact ⟨txn', by rw [hsame, close, hcommit], hmirrors⟩
    · obtain ⟨failed, hfailed⟩ := Option.ne_none_iff_exists'.mp hfailure
      exact ⟨_, close_of_failure hfailed .commit,
        h.extends_txn haffords.continues.grows.extends_txn⟩
  refine ⟨_, by rw [Sitting.run, hstart, Except.ok_bind, hclose, Except.pure_eq_ok], ?_⟩
  cases sitting.renews with
  | false => exact hmirrors
  | true => exact hmirrors.start_commit

/-- Any sessions that are offered vectors which are too long leave the records as they are. -/
lemma Mirrors.exists_runAll_overburdened (h : Mirrors session txn)
    (hrunning : ∃ ledger added, session.Running ledger added)
    (hlong : Overburdens session.field (sittings.flatMap Sitting.insertions))
    (haffords : Sitting.AllAfford session.field.name sittings txn) :
    ∃ txn', Sitting.runAll session.field.name sittings txn = .ok txn' ∧ Mirrors session txn' := by
  induction sittings generalizing txn with
  | nil => exact ⟨txn, rfl, h⟩
  | cons sitting sittings ih =>
    rw [List.flatMap_cons] at hlong
    obtain ⟨between, hrun, hmirrors⟩ := @Mirrors.exists_run_overburdened _ _ sitting h hrunning
      (fun insertion hin => hlong insertion (List.mem_append_left _ hin)) haffords.head
    obtain ⟨txn', hrunAll, hlast⟩ := ih hmirrors
      (fun insertion hin => hlong insertion (List.mem_append_right _ hin)) (haffords.tail hrun)
    exact ⟨txn', (Sitting.runAll_cons hrun).trans hrunAll, hlast⟩

end Registration

namespace Index

/-- **Cutting work into sessions changes nothing**: vectors of one length that are registered on a
field, each at a level of its own, leave the same header, the same nodes, the same containers and
the same page runs, whether they are registered in one session or in any number of sessions, and
whether or not the transaction is committed between these, as long as page numbers suffice.

**Proof sketch.** If the vectors are not too long for any page run then no session fails, and what
the sessions leave pursues the one session. Otherwise the field has no room for any of them, and
whatever the sessions do leaves the records as they are. -/
theorem Reachable.exists_agrees {allowed : Operation → Prop} {index : Index}
    (h : Reachable allowed index) {txn : WriteTransaction} (hwriter : index.store.writer = some txn)
    {name : String} {field : FieldRecord} (hfind : Catalog.find txn.view name = .ok field)
    (config : Config) (sittings : List Sitting) {length : Nat}
    (hlength : ∀ insertion ∈ sittings.flatMap Sitting.insertions, insertion.raw.length = length)
    (hlevel : ∀ insertion ∈ sittings.flatMap Sitting.insertions, insertion.level ≤ maxLevel)
    (hwhole : Sitting.Affords name ⟨config, sittings.flatMap Sitting.insertions, false⟩ txn)
    (hcut : Sitting.AllAfford name sittings txn) :
    ∃ whole cut,
      Sitting.run name ⟨config, sittings.flatMap Sitting.insertions, false⟩ txn = .ok whole ∧
      Sitting.runAll name sittings txn = .ok cut ∧ whole.view.Agrees name cut.view := by
  have hsound := h.sound.writer txn hwriter
  obtain ⟨rfl, _⟩ := hsound.valid hfind
  obtain ⟨session, hstart, rfl, rfl, hrunning, hmirrors⟩ :=
    Registration.exists_mirrored config hsound hfind
  have haffords := hwhole session hstart
  have hstored : ∀ insertion ∈ sittings.flatMap Sitting.insertions, ∀ stored,
      (Codec.ofOptions session.field.options).encode insertion.raw = .ok stored → stored.length =
        encodedLength session.field.options.source session.field.options.destination length :=
    fun insertion hin stored hencode => by
      rw [← hlength insertion hin]
      exact (length_encodeVector hencode).1
  by_cases hshort : encodedLength session.field.options.source session.field.options.destination
      length ≤ maxStoredLength
  · have hsuits : Registration.Suits session.field (sittings.flatMap Sitting.insertions) :=
      fun insertion hin => ⟨hlevel insertion hin, fun stored hencode => by
        rwa [hstored insertion hin stored hencode]⟩
    have hpursues : session.Pursues session.txn := ⟨hmirrors, ⟨_, _, hrunning⟩, rfl⟩
    obtain ⟨whole, hrun, hall⟩ := @Registration.Pursues.exists_run _ _
      ⟨config, sittings.flatMap Sitting.insertions, false⟩ hpursues hsuits haffords
    obtain ⟨cut, hrunAll, hlast⟩ := hpursues.exists_runAll hsuits haffords
    have hagrees := hall.mirrors.agrees hlast.mirrors
    rw [haffords.continues.field] at hagrees
    exact ⟨whole, cut, hrun, hrunAll, hagrees⟩
  · have hlong : Registration.Overburdens session.field (sittings.flatMap Sitting.insertions) :=
      fun insertion hin stored hencode => by
        rw [hstored insertion hin stored hencode]
        exact Nat.not_le.mp hshort
    obtain ⟨whole, hrun, hall⟩ := @Registration.Mirrors.exists_run_overburdened _ _
      ⟨config, sittings.flatMap Sitting.insertions, false⟩ hmirrors ⟨_, _, hrunning⟩ hlong hwhole
    obtain ⟨cut, hrunAll, hlast⟩ :=
      hmirrors.exists_runAll_overburdened ⟨_, _, hrunning⟩ hlong hcut
    exact ⟨whole, cut, hrun, hrunAll, hall.agrees hlast⟩

/-- Two vectors leave the same records in one session and in two, between which the transaction is
committed. -/
theorem Reachable.exists_agrees_created : ∃ index txn whole cut,
    Reachable Operation.IsShort index ∧ index.store.writer = some txn ∧
      Sitting.run "v" ⟨{}, [⟨1, [0, 0, 0, 0], 0⟩, ⟨2, [0, 0, 128, 63], 3⟩], false⟩ txn =
        .ok whole ∧
      Sitting.runAll "v" [⟨{}, [⟨1, [0, 0, 0, 0], 0⟩], true⟩,
        ⟨{}, [⟨2, [0, 0, 128, 63], 3⟩], false⟩] txn = .ok cut ∧
      whole.view.Agrees "v" cut.view := by
  obtain ⟨hcreated, txn, field, hindex, hfind, _, _, hpage⟩ := @exists_run_created "v"
    (.ofShape 2 1) (by decide) (FieldOptions.validate_eq_ok_iff.mp (by decide))
    ⟨by decide, by decide, by decide⟩
  have hwriter : (run [.begin, .create "v" (.ofShape 2 1)]).store.writer = some txn := by
    rw [hindex]
    rfl
  obtain ⟨whole, cut, hwhole, hcut, hagrees⟩ := @Reachable.exists_agrees _ _ hcreated _ hwriter _ _
    hfind {} [⟨{}, [⟨1, [0, 0, 0, 0], 0⟩], true⟩, ⟨{}, [⟨2, [0, 0, 128, 63], 3⟩], false⟩] 4
    (by decide) (by decide) (Sitting.affords_of_le (by rw [hpage]; decide))
    (Sitting.allAfford_of_le (by rw [hpage]; decide))
  exact ⟨_, txn, whole, cut, hcreated, hwriter, hwhole, hcut, hagrees⟩

end Index

end Proximity

import Proximity.Proofs.Index

set_option relaxedAutoImplicit false
set_option autoImplicit false

/-!
# The vectors of a new field

A field can be created under any valid name with any valid options, and every vector that the
options admit can be registered in it, at any level, and committed, and after it any others that
have the same length and names of their own. So the states that can be reached do hold vectors, of
every form that a field can ask for, in any number and any order.

## Main definitions

* `Proximity.Index.run` — the state after a sequence of operations.
* `Proximity.Operation.opening`, `Proximity.Operation.filling`, `Proximity.Operation.founding` — a
  new field with a session, with a vector in it, and with the vector committed.
* `Proximity.Operation.registering`, `Proximity.Operation.adding` — one more vector in an open
  session, and committed in a transaction of its own.
* `Proximity.Operation.populating` — a new field with any number of vectors.
* `Proximity.Registration.Takes` — vectors that a field can accept together.
* `Proximity.Accepted.spread` — four vectors, two of which are equally far from the first.
* `Proximity.Index.Rests` — no transaction is open.

## Main results

* `Proximity.Index.exists_run_filling` — the session has registered the vector.
* `Proximity.Index.exists_run_founding` — the field has accepted the vector.
* `Proximity.Index.Rests.adding` — a field accepts one more vector that it admits.
* `Proximity.Index.exists_run_populating` — a new field accepts vectors that it takes.
-/

namespace Proximity

/-- The vector of the one number zero, under the name one. -/
def Accepted.zero : Accepted :=
  ⟨⟨1⟩, [0, 0, 0, 0], [0, 0, 0, 0]⟩

/-- The vector of the one number one, under the name two. -/
def Accepted.one : Accepted :=
  ⟨⟨2⟩, [0, 0, 128, 63], [0, 0, 128, 63]⟩

/-- The vector of the one number minus one, under the name three. -/
def Accepted.minusOne : Accepted :=
  ⟨⟨3⟩, [0, 0, 128, 191], [0, 0, 128, 191]⟩

/-- The vector of the one number two, under the name four. -/
def Accepted.two : Accepted :=
  ⟨⟨4⟩, [0, 0, 0, 64], [0, 0, 0, 64]⟩

/-- **Four numbers on a line**; one and minus one are equally far from zero. -/
def Accepted.spread : List Accepted :=
  [zero, one, minusOne, two]

/-- The operations that open a session on a new field. -/
def Operation.opening (name : String) (options : FieldOptions) : List Operation :=
  [.begin, .create name options, .start {} name]

/-- The operations that register a vector in a session on a new field. -/
def Operation.filling (name : String) (options : FieldOptions) (vector : Accepted)
    (level : Option Nat) : List Operation :=
  opening name options ++ [.register vector.id.raw vector.raw level]

/-- The operations that commit a vector to a new field. -/
def Operation.founding (name : String) (options : FieldOptions) (vector : Accepted)
    (level : Option Nat) : List Operation :=
  filling name options vector level ++ [.finish, .commit]

/-- The operations that commit a new field. -/
def Operation.creating (name : String) (options : FieldOptions) : List Operation :=
  [.begin, .create name options, .commit]

/-- The operations that register one more vector in a session on a field, in a transaction of its
own. -/
def Operation.registering (name : String) (vector : Accepted) (level : Option Nat) :
    List Operation :=
  [.begin, .start {} name, .register vector.id.raw vector.raw level]

/-- The operations that commit one more vector to a field, in a transaction of its own. -/
def Operation.adding (name : String) (vector : Accepted) (level : Option Nat) : List Operation :=
  registering name vector level ++ [.finish, .commit]

/-- The operations that commit vectors to a field, each at its own level and in a transaction of its
own. -/
def Operation.addingAll (name : String) (entries : List (Accepted × Option Nat)) :
    List Operation :=
  entries.flatMap fun entry => adding name entry.1 entry.2

/-- The operations that create a field and commit vectors to it. -/
def Operation.populating (name : String) (options : FieldOptions)
    (entries : List (Accepted × Option Nat)) : List Operation :=
  creating name options ++ addingAll name entries

/-- **Vectors that a field can accept together**: each has the form that the options ask for, all
have one length, and no two have the same name. -/
structure Registration.Takes (options : FieldOptions) (vectors : List Accepted) : Prop where
  accepted : ∀ vector ∈ vectors, VectorId.accepted vector.id.raw = true
  encoded : ∀ vector ∈ vectors, (Codec.ofOptions options).encode vector.raw = .ok vector.stored
  fixedLength : ∀ vector ∈ vectors, 0 < options.vectorBytes →
    vector.raw.length = options.vectorBytes
  length : ∀ vector ∈ vectors, ∀ other ∈ vectors, other.raw.length = vector.raw.length
  nodup : (vectors.map Accepted.id).Nodup
  short : ∀ vector ∈ vectors, vector.raw.length + 4 ≤ maxStoredLength

/-- A field that takes all vectors admits each of them after those before it. -/
lemma Registration.Takes.admits {field : FieldRecord} {before after : List Accepted}
    {vector : Accepted} (h : Takes field.options (before ++ vector :: after)) :
    Admits field before vector where
  accepted := h.accepted vector (by simp)
  encoded := h.encoded vector (by simp)
  fixedLength := h.fixedLength vector (by simp)
  length other hother := h.length vector (by simp) other (List.mem_append_left _ hother)
  new hin := by
    have hnodup := h.nodup
    rw [List.map_append, List.map_cons] at hnodup
    exact (List.nodup_append.mp hnodup).2.2 _ hin _ List.mem_cons_self rfl

namespace Index

/-- The state after a sequence of operations. -/
def run (ops : List Operation) : Index :=
  ops.foldl step empty

/-- Operations, and then further ones. -/
lemma run_append (ops more : List Operation) : run (ops ++ more) = more.foldl step (run ops) :=
  List.foldl_append

variable {index : Index} {txn txn' : WriteTransaction} {name : String} {options : FieldOptions}
  {session next : Registration}

/-! ## Operations that succeed -/

/-- A definition that is accepted goes into the write transaction. -/
lemma step_create {record : FieldRecord} (hsession : index.session = none)
    (hwriter : index.store.writer = some txn)
    (hcreate : Catalog.create txn name options = .ok (record, txn')) :
    index.step (.create name options) = index.withWriter txn' := by
  simp only [step, whenFree, hsession, hwriter, hcreate]

/-- A session that can be opened has registered nothing yet. -/
lemma step_start {config : Config} (hsession : index.session = none)
    (hwriter : index.store.writer = some txn)
    (hstart : Registration.start config txn name = .ok session) :
    index.step (.start config name) = { index with session := some session, added := [] } := by
  simp only [step, whenFree, hsession, hwriter, hstart]

/-- A vector that is accepted goes into the session and the list of those it has registered. -/
lemma step_register {id : UInt64} {raw : Bytes} {level : Option Nat}
    (hsession : index.session = some session)
    (hregister : session.registerAtLevel id raw level = (next, .ok ())) :
    index.step (.register id raw level) = { index.withWriter next.txn with
      session := some next, added := index.added ++ [accept session id raw] } := by
  simp only [step, whenOpen, hsession, register, hregister]

/-- A session that commits hands its vectors over to the write transaction. -/
lemma step_finish {count : Nat} (hsession : index.session = some session)
    (hcommit : session.commit = .ok (count, txn')) :
    index.step .finish = { index.withWriter txn' with
      session := none
      pending := Function.update index.pending session.field.name
        (index.pending session.field.name ++ index.added) } := by
  simp only [step, whenOpen, hsession, finish, hcommit]

/-- A commit makes the state of the write transaction the latest one. -/
lemma step_commit (hsession : index.session = none) (hwriter : index.store.writer = some txn) :
    index.step .commit = { index with
      store := { committed := txn.commit, writer := none }
      committed := index.pending } := by
  simp only [step, whenFree, hsession, hwriter, Store.commit?, Option.map_some]

/-! ## One field and one vector -/

/-- The new field is there, in a write transaction that has handed out no page. -/
lemma exists_run_created (hname : FieldName.validate name = .ok ()) (hoptions : options.Accepted)
    (hfits : options.Fits) :
    Reachable Operation.IsShort (run [.begin, .create name options]) ∧
      ∃ txn field, run [.begin, .create name options] = empty.withWriter txn ∧
        Catalog.find txn.view name = .ok field ∧ field.name = name ∧ field.options = options ∧
        txn.nextPage = 0 := by
  have hnone : (WriteTransaction.start .empty).view.get? (RecordKey.field name).bytes = none := by
    rw [WriteTransaction.get?_start]
    simp [Snapshot.get?, Snapshot.empty]
  have hcreate := Snapshot.Sound.create_eq_ok_iff.mpr ⟨hname, hoptions, hnone, rfl, rfl⟩
  have hversion : (WriteTransaction.start .empty).version < UInt64.size := by decide
  have hbegun : Reachable Operation.IsShort (empty.step .begin) :=
    .step .empty .begin trivial trivial
  have hcreated := hbegun.step (.create name options) trivial
    ⟨hfits, by rintro _ ⟨⟩; exact hversion⟩
  have hindex := @step_create (empty.step .begin) _ _ name options _ rfl rfl hcreate
  exact ⟨hcreated, _, _, hindex, Snapshot.Sound.find_create hfits hversion hcreate, rfl, rfl, rfl⟩

/-- A session is open on the new field, and nothing has been registered. -/
lemma exists_run_opening (hname : FieldName.validate name = .ok ()) (hoptions : options.Accepted)
    (hfits : options.Fits) :
    Reachable Operation.IsShort (run (Operation.opening name options)) ∧
      ∃ session, (run (Operation.opening name options)).session = some session ∧
        (run (Operation.opening name options)).added = [] ∧
        (run (Operation.opening name options)).pending = (fun _ => []) ∧
        session.txn.nextPage = 0 ∧ session.field.name = name ∧ session.field.options = options := by
  obtain ⟨hcreated, txn, record, hindex, hfind, hrecord, hrecordoptions, hpage⟩ :=
    exists_run_created hname hoptions hfits
  have hrun : run (Operation.opening name options) =
      (run [.begin, .create name options]).step (.start {} name) := rfl
  generalize run [.begin, .create name options] = index at *
  obtain ⟨session, hstart, htxn, hfield, _⟩ := Registration.exists_start {}
    (hcreated.sound.writer txn (by rw [hindex]; rfl)) hfind
  refine ⟨hrun ▸ hcreated.step (.start {} name) trivial trivial, session, ?_⟩
  rw [hrun, step_start (by rw [hindex]; rfl) (by rw [hindex]; rfl) hstart, hindex, hfield, htxn]
  exact ⟨rfl, rfl, rfl, hpage, hrecord, hrecordoptions⟩

/-- **The session has registered a vector** that the options admit.

**Proof sketch.** The session is running and admits the vector, and the first page number is far
below the last one. -/
theorem exists_run_filling (hname : FieldName.validate name = .ok ()) (hoptions : options.Accepted)
    (hfits : options.Fits) {vector : Accepted} (haccepted : VectorId.accepted vector.id.raw = true)
    (hencoded : (Codec.ofOptions options).encode vector.raw = .ok vector.stored)
    (hfixed : 0 < options.vectorBytes → vector.raw.length = options.vectorBytes)
    (hshort : vector.raw.length + 4 ≤ maxStoredLength) {level : Option Nat}
    (hlevel : ∀ l, level = some l → l ≤ maxLevel) :
    Reachable Operation.IsShort (run (Operation.filling name options vector level)) ∧
      ∃ session, (run (Operation.filling name options vector level)).session = some session ∧
        (run (Operation.filling name options vector level)).added = [vector] ∧
        (run (Operation.filling name options vector level)).pending = (fun _ => []) ∧
        session.field.name = name ∧ session.field.options = options := by
  obtain ⟨hreachable, session, hsession, hadded, hpending, hpage, rfl, rfl⟩ :=
    exists_run_opening hname hoptions hfits
  have hrun : run (Operation.filling session.field.name session.field.options vector level) =
      (run (Operation.opening session.field.name session.field.options)).step
        (.register vector.id.raw vector.raw level) := run_append _ _
  generalize run (Operation.opening session.field.name session.field.options) = index at *
  have hrunning := (hreachable.sound.session session hsession).2
    (hreachable.healthy session hsession)
  rw [hadded, hpending] at hrunning
  have hpages : session.txn.nextPage.toNat + UInt32.size ≤ UInt64.size := by
    rw [hpage]
    decide
  have hadmits : Registration.Admits session.field ([] ++ []) vector :=
    ⟨haccepted, hencoded, hfixed, by simp, by simp⟩
  have hstored : vector.stored.length ≤ maxStoredLength := by
    rw [(length_encodeVector hencoded).1]
    exact (encodedLength_le _ _ _).trans hshort
  obtain ⟨next, hregister, hnext, hfield⟩ := hrunning.exists_register hadmits hstored hpages hlevel
  have haccept : accept session vector.id.raw vector.raw = vector := by
    rw [accept, hencoded]
    rfl
  refine ⟨hrun ▸ hreachable.step (.register vector.id.raw vector.raw level) hshort
    ⟨fun _ hsome => ?_, hlevel⟩, next, ?_⟩
  · obtain rfl := Option.some.inj (hsession.symm.trans hsome)
    exact hpages
  · rw [hrun, step_register hsession hregister, hadded, haccept, hfield]
    exact ⟨rfl, rfl, hpending, rfl, rfl⟩

/-- **The field has accepted a vector** that its options admit.

**Proof sketch.** A running session commits, and the transaction can be committed when no session is
open. -/
theorem exists_run_founding (hname : FieldName.validate name = .ok ()) (hoptions : options.Accepted)
    (hfits : options.Fits) {vector : Accepted} (haccepted : VectorId.accepted vector.id.raw = true)
    (hencoded : (Codec.ofOptions options).encode vector.raw = .ok vector.stored)
    (hfixed : 0 < options.vectorBytes → vector.raw.length = options.vectorBytes)
    (hshort : vector.raw.length + 4 ≤ maxStoredLength) {level : Option Nat}
    (hlevel : ∀ l, level = some l → l ≤ maxLevel) :
    Reachable Operation.IsShort (run (Operation.founding name options vector level)) ∧
      (run (Operation.founding name options vector level)).committed name = [vector] ∧
      ∃ field, Catalog.find (run (Operation.founding name options vector level)).store.beginRead
        name = .ok field ∧ field.options = options := by
  obtain ⟨hreachable, session, hsession, hadded, hpending, rfl, rfl⟩ :=
    exists_run_filling hname hoptions hfits haccepted hencoded hfixed hshort hlevel
  have hrun : run (Operation.founding session.field.name session.field.options vector level) =
      ((run (Operation.filling session.field.name session.field.options vector level)).step
        .finish).step .commit := run_append _ _
  generalize run (Operation.filling session.field.name session.field.options vector level) = index
    at *
  have hrunning := (hreachable.sound.session session hsession).2
    (hreachable.healthy session hsession)
  obtain ⟨txn, hcommit, _, hfind, _⟩ := hrunning.exists_commit
  have hfinish := step_finish hsession hcommit
  refine ⟨hrun ▸ (hreachable.step .finish trivial trivial).step .commit trivial trivial, ?_⟩
  rw [hrun, hfinish, step_commit rfl rfl]
  refine ⟨?_, session.field, (hfind session.field.name).trans hrunning.field, rfl⟩
  simp [hpending, hadded]

/-! ## More vectors -/

/-- A field is there and no transaction is open, and pages can still be handed out. -/
structure Rests (index : Index) (name : String) (field : FieldRecord) (pages : Nat) : Prop where
  session : index.session = none
  writer : index.store.writer = none
  find : Catalog.find index.store.beginRead name = .ok field
  nextPage_le : index.store.committed.nextPage.toNat ≤ pages

/-- **A field has been created**, without vectors.

**Proof sketch.** What has been created is committed; no page has been handed out. -/
theorem exists_run_creating (hname : FieldName.validate name = .ok ()) (hoptions : options.Accepted)
    (hfits : options.Fits) :
    Reachable Operation.IsShort (run (Operation.creating name options)) ∧
      (run (Operation.creating name options)).committed = (fun _ => []) ∧
      ∃ field, (run (Operation.creating name options)).Rests name field 0 ∧
        field.options = options := by
  obtain ⟨hcreated, txn, field, hindex, hfind, _, hfieldoptions, hpage⟩ :=
    exists_run_created hname hoptions hfits
  have hrun : run (Operation.creating name options) =
      (run [.begin, .create name options]).step .commit := rfl
  generalize run [.begin, .create name options] = index at *
  refine ⟨hrun ▸ hcreated.step .commit trivial trivial, ?_⟩
  rw [hrun, step_commit (by rw [hindex]; rfl) (by rw [hindex]; rfl), hindex]
  exact ⟨rfl, field, ⟨rfl, rfl, hfind, Nat.le_of_eq (by rw [← UInt64.toNat_zero, ← hpage]; rfl)⟩,
    hfieldoptions⟩

/-- A new write transaction, in which a session is opened on the field.

**Proof sketch.** No transaction is open, so that one can be started, and it sees the field. -/
lemma Rests.exists_opened {field : FieldRecord} {pages : Nat} (h : index.Rests name field pages)
    (hreachable : Reachable Operation.IsShort index) :
    ∃ session, session.txn = .start index.store.committed ∧ session.field = field ∧
      (index.step .begin).step (.start {} name) = { index.withWriter session.txn with
        session := some session, pending := index.committed, added := [] } ∧
      Leads Operation.IsShort index ((index.step .begin).step (.start {} name)) := by
  have hbegin : index.step .begin = { index.withWriter (.start index.store.committed) with
      pending := index.committed } := by
    rw [step, Store.beginWrite, h.writer]
    rfl
  have hbegun : Leads Operation.IsShort index (index.step .begin) :=
    .step .refl .begin trivial trivial
  have hfind : Catalog.find (WriteTransaction.start index.store.committed).view name =
      .ok field := by
    rw [Catalog.find, WriteTransaction.get?_start]
    exact h.find
  obtain ⟨session, hstart, htxn, hfield, _⟩ := Registration.exists_start {}
    ((hbegun.reachable hreachable).sound.writer _ (by rw [hbegin]; rfl)) hfind
  refine ⟨session, htxn, hfield, ?_, hbegun.step (.start {} name) trivial trivial⟩
  rw [step_start (by rw [hbegin]; exact h.session) (by rw [hbegin]; rfl) hstart, hbegin, htxn]

/-- **One more vector is registered** in a session on a field that admits it.

**Proof sketch.** The session that is opened sees what has been committed, so that it admits the
vector. It hands out one run at most. -/
theorem Rests.exists_registered {field : FieldRecord} {pages : Nat}
    (h : index.Rests name field pages) (hreachable : Reachable Operation.IsShort index)
    {vector : Accepted} (hadmits : Registration.Admits field (index.committed name) vector)
    (hshort : vector.raw.length + 4 ≤ maxStoredLength)
    (hpages : pages + UInt32.size ≤ UInt64.size) {level : Option Nat}
    (hlevel : ∀ l, level = some l → l ≤ maxLevel) :
    ∃ next, (Operation.registering name vector level).foldl step index =
        { index.withWriter next.txn with
          session := some next, pending := index.committed, added := [vector] } ∧
      next.field = field ∧ next.txn.nextPage.toNat ≤ pages + UInt32.size ∧
      Leads Operation.IsShort index
        ((Operation.registering name vector level).foldl step index) := by
  obtain ⟨rfl, _⟩ := hreachable.sound.committed.valid h.find
  obtain ⟨session, htxn, hfield, hopen, hleads⟩ := h.exists_opened hreachable
  have hrun : (Operation.registering field.name vector level).foldl step index =
      ((index.step .begin).step (.start {} field.name)).step
        (.register vector.id.raw vector.raw level) := rfl
  generalize (index.step .begin).step (.start {} field.name) = opened at *
  have hsession : opened.session = some session := by rw [hopen]
  have hrunning := (hleads.reachable hreachable).running hsession
  have hadmits' : Registration.Admits session.field
      (opened.pending session.field.name ++ opened.added) vector := by
    rw [hopen, hfield, List.append_nil]
    exact hadmits
  have hstored : vector.stored.length ≤ maxStoredLength := by
    rw [(length_encodeVector hadmits.encoded).1]
    exact (encodedLength_le _ _ _).trans hshort
  have hnextPage : session.txn.nextPage.toNat ≤ pages := by
    rw [htxn]
    exact h.nextPage_le
  have hsuffice : session.txn.nextPage.toNat + UInt32.size ≤ UInt64.size := by omega
  obtain ⟨next, hregister, _, hnextfield⟩ :=
    hrunning.exists_register hadmits' hstored hsuffice hlevel
  have hgrows := (session.continues_registerAtLevel vector.id.raw vector.raw level hsuffice).grows
  rw [hregister] at hgrows
  have haccept : accept session vector.id.raw vector.raw = vector := by
    rw [accept, hfield, hadmits.encoded]
    rfl
  refine ⟨next, ?_, hnextfield.trans hfield, ?_, ?_⟩
  · rw [hrun, step_register hsession hregister, haccept, hopen]
    rfl
  · have hle : next.txn.nextPage.toNat ≤ session.txn.nextPage.toNat + 1 * UInt32.size :=
      hgrows.nextPage_le
    omega
  · rw [hrun]
    refine hleads.step (.register vector.id.raw vector.raw level) hshort
      ⟨fun found hfound => ?_, hlevel⟩
    rwa [← Option.some.inj (hsession.symm.trans hfound)]

/-- **One more vector is committed** to a field that admits it.

**Proof sketch.** The session with the vector commits, and then the transaction does. Only the
session has handed out a page run. -/
theorem Rests.adding {field : FieldRecord} {pages : Nat} (h : index.Rests name field pages)
    (hreachable : Reachable Operation.IsShort index) {vector : Accepted}
    (hadmits : Registration.Admits field (index.committed name) vector)
    (hshort : vector.raw.length + 4 ≤ maxStoredLength)
    (hpages : pages + UInt32.size ≤ UInt64.size) {level : Option Nat}
    (hlevel : ∀ l, level = some l → l ≤ maxLevel) :
    Leads Operation.IsShort index ((Operation.adding name vector level).foldl step index) ∧
      ((Operation.adding name vector level).foldl step index).committed name =
        index.committed name ++ [vector] ∧
      ((Operation.adding name vector level).foldl step index).Rests name field
        (pages + UInt32.size) := by
  obtain ⟨next, hregistered, rfl, hnextPage, hleads⟩ :=
    h.exists_registered hreachable hadmits hshort hpages hlevel
  obtain ⟨rfl, _⟩ := hreachable.sound.committed.valid h.find
  have hrun : (Operation.adding next.field.name vector level).foldl step index =
      (((Operation.registering next.field.name vector level).foldl step index).step
        .finish).step .commit := List.foldl_append
  generalize (Operation.registering next.field.name vector level).foldl step index = registered
    at *
  have hsession : registered.session = some next := by rw [hregistered]
  have hnext := (hleads.reachable hreachable).running hsession
  obtain ⟨_, _, txn', _, hcommit, hflushed, _⟩ := hnext.exists_flushed
  have hfinished := step_finish hsession hcommit
  refine ⟨?_, ?_, ?_⟩
  · rw [hrun]
    exact (hleads.step .finish trivial trivial).step .commit trivial trivial
  · rw [hrun, hfinished, step_commit rfl rfl, hregistered]
    simp
  · rw [hrun, hfinished, step_commit rfl rfl]
    refine ⟨rfl, rfl, ?_, ?_⟩
    · exact (Snapshot.Sound.find_of_flushed hflushed next.field.name).trans hnext.field
    · show txn'.nextPage.toNat ≤ pages + UInt32.size
      rwa [hflushed.nextPage]

/-- **Vectors are committed one after another** to a field that takes them along with those that it
has already accepted.

**Proof sketch.** By induction on the vectors that are still to come; those that have been accepted
are a prefix of all that the field takes. -/
theorem Rests.addingAll {field : FieldRecord} {pages : Nat} (h : index.Rests name field pages)
    (hreachable : Reachable Operation.IsShort index) {entries : List (Accepted × Option Nat)}
    (htakes : Registration.Takes field.options (index.committed name ++ entries.map Prod.fst))
    (hpages : pages + entries.length * UInt32.size ≤ UInt64.size)
    (hlevel : ∀ entry ∈ entries, ∀ l, entry.2 = some l → l ≤ maxLevel) :
    Leads Operation.IsShort index ((Operation.addingAll name entries).foldl step index) ∧
      ((Operation.addingAll name entries).foldl step index).committed name =
        index.committed name ++ entries.map Prod.fst ∧
      ((Operation.addingAll name entries).foldl step index).Rests name field
        (pages + entries.length * UInt32.size) := by
  induction entries generalizing index pages with
  | nil => exact ⟨.refl, (List.append_nil _).symm, by simpa [Operation.addingAll] using h⟩
  | cons entry entries ih =>
    rw [List.map_cons] at htakes
    have hsum : pages + (entry :: entries).length * UInt32.size =
        pages + UInt32.size + entries.length * UInt32.size := by
      rw [List.length_cons, Nat.succ_mul, Nat.add_right_comm, Nat.add_assoc]
    rw [hsum] at hpages ⊢
    obtain ⟨hleads, hcommitted, hrests⟩ := h.adding hreachable htakes.admits
      (htakes.short entry.1 (by simp)) ((Nat.le_add_right _ _).trans hpages)
      (hlevel entry List.mem_cons_self)
    have hrun : (Operation.addingAll name (entry :: entries)).foldl step index =
        (Operation.addingAll name entries).foldl step
          ((Operation.adding name entry.1 entry.2).foldl step index) := by
      rw [Operation.addingAll, List.flatMap_cons, List.foldl_append]
      rfl
    rw [hrun]
    generalize (Operation.adding name entry.1 entry.2).foldl step index = next at *
    obtain ⟨hleads', hcommitted', hrests'⟩ := ih hrests (hleads.reachable hreachable)
      (by rwa [hcommitted, List.append_assoc]) hpages
      fun other hother => hlevel other (List.mem_cons_of_mem _ hother)
    refine ⟨hleads.trans hleads', ?_, hrests'⟩
    rw [hcommitted', hcommitted, List.append_assoc]
    rfl

/-- **A new field has accepted vectors that it takes**, in their order. -/
theorem exists_run_populating (hname : FieldName.validate name = .ok ())
    (hoptions : options.Accepted) (hfits : options.Fits) {entries : List (Accepted × Option Nat)}
    (htakes : Registration.Takes options (entries.map Prod.fst))
    (hpages : entries.length * UInt32.size ≤ UInt64.size)
    (hlevel : ∀ entry ∈ entries, ∀ l, entry.2 = some l → l ≤ maxLevel) :
    Reachable Operation.IsShort (run (Operation.populating name options entries)) ∧
      (run (Operation.populating name options entries)).committed name = entries.map Prod.fst ∧
      ∃ field, (run (Operation.populating name options entries)).Rests name field
          (entries.length * UInt32.size) ∧ field.options = options := by
  obtain ⟨hcreated, hempty, field, hrests, rfl⟩ := exists_run_creating hname hoptions hfits
  obtain ⟨hleads, hcommitted, hrests'⟩ := hrests.addingAll hcreated
    (by rwa [hempty, List.nil_append]) (by rwa [Nat.zero_add]) hlevel
  rw [hempty, List.nil_append] at hcommitted
  rw [Nat.zero_add] at hrests'
  rw [Operation.populating, run_append]
  exact ⟨hleads.reachable hcreated, hcommitted, field, hrests', rfl⟩

/-- The options of a field of numbers on a line, whose nodes have at most two neighbors. -/
def onLine : FieldOptions :=
  { FieldOptions.ofShape 2 2 with metric := .euclidean }

/-- **The four numbers on a line have been accepted**, in any order and at any levels.

**Proof sketch.** Each of the four vectors is admitted, and they have different names. -/
theorem exists_run_spread {entries : List (Accepted × Option Nat)}
    (hentries : (entries.map Prod.fst).Perm Accepted.spread)
    (hlevel : ∀ entry ∈ entries, ∀ l, entry.2 = some l → l ≤ maxLevel) :
    Reachable Operation.IsShort (run (Operation.populating "v" onLine entries)) ∧
      (run (Operation.populating "v" onLine entries)).committed "v" = entries.map Prod.fst ∧
      ∃ field pages, (run (Operation.populating "v" onLine entries)).Rests "v" field pages ∧
        pages + 2 * UInt32.size ≤ UInt64.size ∧ field.options = onLine := by
  have htakes : Registration.Takes onLine (entries.map Prod.fst) :=
    { accepted := fun vector hvector =>
        (by decide : ∀ vector ∈ Accepted.spread, VectorId.accepted vector.id.raw = true) vector
          (hentries.mem_iff.mp hvector)
      encoded := fun vector hvector =>
        (by decide +kernel : ∀ vector ∈ Accepted.spread,
          (Codec.ofOptions onLine).encode vector.raw = .ok vector.stored) vector
            (hentries.mem_iff.mp hvector)
      fixedLength := fun _ _ hpos => absurd hpos (by decide)
      length := fun vector hvector other hother =>
        (by decide : ∀ vector ∈ Accepted.spread, ∀ other ∈ Accepted.spread,
          other.raw.length = vector.raw.length) vector (hentries.mem_iff.mp hvector) other
            (hentries.mem_iff.mp hother)
      nodup := (hentries.map Accepted.id).nodup_iff.mpr (by decide)
      short := fun vector hvector =>
        (by decide : ∀ vector ∈ Accepted.spread, vector.raw.length + 4 ≤ maxStoredLength) vector
          (hentries.mem_iff.mp hvector) }
  have hlength : entries.length = 4 := by
    rw [← List.length_map Prod.fst, hentries.length_eq]
    rfl
  obtain ⟨hreachable, hcommitted, field, hrests, hoptions⟩ := exists_run_populating
    (show FieldName.validate "v" = .ok () by decide)
    (FieldOptions.validate_eq_ok_iff.mp (by decide)) ⟨by decide, by decide, by decide⟩ htakes
    (by rw [hlength]; decide) hlevel
  exact ⟨hreachable, hcommitted, field, _, hrests, by rw [hlength]; decide, hoptions⟩

/-- **A field of four numbers on a line** at different levels, which no transaction has open. -/
theorem exists_spread : ∃ index field pages, Reachable Operation.IsShort index ∧
    index.committed "v" = Accepted.spread ∧ index.Rests "v" field pages ∧
    pages + 2 * UInt32.size ≤ UInt64.size ∧ field.options = onLine := by
  obtain ⟨hreachable, hcommitted, field, pages, hrests, hpages, hoptions⟩ := @exists_run_spread
    [(.zero, some 1), (.one, some 0), (.minusOne, some 2), (.two, some 1)] .rfl (by decide)
  exact ⟨_, field, pages, hreachable, hcommitted, hrests, hpages, hoptions⟩

/-- A field that has one vector, and later two.

**Proof sketch.** Two vectors are added one after the other to a field that has been created. -/
lemma exists_growing {level : Option Nat} (hlevel : ∀ l, level = some l → l ≤ maxLevel) :
    ∃ index later field, Reachable Operation.IsShort index ∧ Leads Operation.IsShort index later ∧
      Catalog.find index.store.beginRead "v" = .ok field ∧
      Catalog.find later.store.beginRead "v" = .ok field ∧ field.options = .ofShape 2 1 ∧
      index.committed "v" = [.zero] ∧ later.committed "v" = [.zero, .one] := by
  obtain ⟨hcreated, hempty, field, hrests, hoptions⟩ := @exists_run_creating "v" (.ofShape 2 1)
    (by decide) (FieldOptions.validate_eq_ok_iff.mp (by decide)) ⟨by decide, by decide, by decide⟩
  have hfixed : ¬0 < field.options.vectorBytes := by
    rw [hoptions]
    decide
  obtain ⟨hleads, hzero, hrests⟩ := @Rests.adding _ _ _ _ hrests hcreated .zero
    ⟨by decide, by rw [hoptions]; rfl, fun hpos => absurd hpos hfixed, by simp [hempty],
      by simp [hempty]⟩ (by decide) (by decide) level hlevel
  rw [hempty, List.nil_append] at hzero
  have hreachable := hleads.reachable hcreated
  obtain ⟨hleads', hone, hrests'⟩ := @Rests.adding _ _ _ _ hrests hreachable .one
    ⟨by decide, by rw [hoptions]; rfl, fun hpos => absurd hpos hfixed,
      by rw [hzero]; decide, by rw [hzero]; decide⟩
    (by decide) (by decide) level hlevel
  rw [hzero] at hone
  exact ⟨_, _, field, hreachable, hleads', hrests.find, hrests'.find, hoptions, hzero, hone⟩

end Index

end Proximity

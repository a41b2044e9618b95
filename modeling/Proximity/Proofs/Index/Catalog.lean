import Proximity.Proofs.Index.Deeds
import Proximity.Proofs.Store.Catalog

set_option relaxedAutoImplicit false
set_option autoImplicit false

/-!
# The catalog is append-only

The answers to the operations on an index tell which fields every transaction has: those that have
been created in it, behind those that had been committed when it was opened. The catalog of the
transaction holds these fields and no others, each with the definition that was answered when it was
created. Nothing that is done later, to the field or to other ones, changes a definition or removes
it, and a field is created unless its name or its options are not valid or its name is taken.

## Main definitions

* `Proximity.Registry`, `Proximity.Registry.after` — the fields that answers tell of.
* `Proximity.Index.Opens` — the transactions of some operations, with the fields that they have.
* `Proximity.Index.Creatable` — a field that can be created in a transaction.
* `Proximity.Index.Catalogs` — the invariant.

## Main results

* `Proximity.Index.Catalogs.step`, `Proximity.Index.Catalogs.foldl` — operations keep the invariant.
* `Proximity.Index.catalog_append_only` — the catalog of every transaction.
-/

namespace Proximity

/-- **The fields that have been created**, in this order: those of the latest commit, and those that
the write transaction has. -/
structure Registry where
  /-- The fields of the latest commit. -/
  committed : List FieldRecord
  /-- The fields of the write transaction. -/
  pending : List FieldRecord

namespace Registry

/-- No field has been created. -/
def empty : Registry where
  committed := []
  pending := []

/-- What an answer tells: a new write transaction has what has been committed, a field that is
created is one more, and a commit is of all that the write transaction has. -/
def note (registry : Registry) : Answer → Registry
  | .begun (.ok _) => { registry with pending := registry.committed }
  | .created (.ok record) => { registry with pending := registry.pending ++ [record] }
  | .committed _ => { registry with committed := registry.pending }
  | _ => registry

/-- The fields that the answers to some operations tell of. -/
def after (ops : List Operation) : Registry :=
  (Index.empty.answers ops).foldl note empty

end Registry

namespace Index

/-- **What a transaction sees that is opened in the course of some operations**, and the fields that
it has. -/
inductive Opens (ops : List Operation) : Snapshot → List FieldRecord → Prop
  /-- A reader that has been opened at any time sees the latest commit of that time. -/
  | reader {before later : List Operation} (h : before ++ later = ops) :
      Opens ops (run before).store.beginRead (Registry.after before).committed
  /-- The writer sees its own changes. -/
  | writer {txn : WriteTransaction} (h : (run ops).store.writer = some txn) :
      Opens ops txn.view (Registry.after ops).pending

/-- **A field can be created** in what a transaction sees: its name and its options are valid, and
its name is not taken. -/
def Creatable (view : Snapshot) (name : String) (options : FieldOptions) : Prop :=
  FieldName.validate name = .ok () ∧ options.validate = .ok () ∧ name ∉ Catalog.names view

/-- **The invariant of the catalog** after no more than `count` operations: commits and the write
transaction have the fields that have been created, and those of the latest commit come first. -/
structure Catalogs (count : Nat) (index : Index) (registry : Registry) : Prop where
  committed : index.store.committed.Defines registry.committed
  version_le : index.store.committed.version ≤ count
  writer : ∀ txn, index.store.writer = some txn → txn.view.Defines registry.pending ∧
    registry.committed <+: registry.pending ∧ txn.version ≤ count
  session : ∀ session, index.session = some session → index.store.writer = some session.txn

variable {index : Index} {registry : Registry} {count : Nat} {op : Operation}
  {ops : List Operation} {txn txn' : WriteTransaction} {session : Registration}

/-- Only a commit of the write transaction is answered by a new version. -/
lemma exists_free_of_committed {version : Nat} (h : index.answer op = .committed version) :
    ∃ txn, index.free = some txn := by
  cases hfree : index.free with
  | some txn => exact ⟨txn, rfl⟩
  | none =>
    cases op with
    | register id raw level =>
      unfold answer at h
      cases hsession : index.session <;> simp [hsession] at h
    | finish =>
      unfold answer at h
      cases hsession : index.session <;> simp [hsession] at h
    | _ => simp [answer, hfree] at h

namespace Catalogs

/-- An index without fields has the empty register. -/
lemma empty : Catalogs 0 Index.empty .empty where
  committed := .empty
  version_le := Nat.le_refl 0
  writer txn h := by cases h
  session session h := by cases h

/-- The bound on the operations may be greater. -/
lemma succ (h : Catalogs count index registry) : Catalogs (count + 1) index registry where
  committed := h.committed
  version_le := Nat.le_succ_of_le h.version_le
  writer txn hwriter := by
    obtain ⟨hdefines, hprefix, hversion⟩ := h.writer txn hwriter
    exact ⟨hdefines, hprefix, Nat.le_succ_of_le hversion⟩
  session := h.session

/-- The write transaction has gone on without changing a definition.

**Proof sketch.** What the transaction defines depends on the keys of definitions, and its version
on its base. -/
lemma withWriter (h : Catalogs count index registry) (hwriter : index.store.writer = some txn)
    (hsame : txn.SameCatalog txn') {next : Index} (hstore : next.store =
      { index.store with writer := some txn' })
    (hsession : ∀ session, next.session = some session → session.txn = txn') :
    Catalogs count next registry where
  committed := by
    rw [hstore]
    exact h.committed
  version_le := by
    rw [hstore]
    exact h.version_le
  writer found hfound := by
    obtain ⟨hdefines, hprefix, hversion⟩ := h.writer txn hwriter
    rw [hstore] at hfound
    obtain rfl := Option.some.inj hfound
    refine ⟨hdefines.congr hsame.get?, hprefix, ?_⟩
    rw [WriteTransaction.version, hsame.base]
    exact hversion
  session session hsome := by rw [hstore, hsession session hsome]

/-- A new write transaction has what has been committed.

**Proof sketch.** The new transaction sees the definitions of its base. -/
lemma begin (h : Catalogs count index registry) {store : Store} {pending : Ledger}
    (hbegin : index.store.beginWrite = .ok store) :
    Catalogs count { index with store, pending }
      { registry with pending := registry.committed } := by
  unfold Store.beginWrite at hbegin
  cases hwriter : index.store.writer with
  | some txn => simp [hwriter] at hbegin
  | none =>
    simp only [hwriter, Except.ok.injEq] at hbegin
    subst hbegin
    exact {
      committed := h.committed
      version_le := h.version_le
      writer := by
        rintro _ ⟨⟩
        exact ⟨h.committed.congr fun key _ => WriteTransaction.get?_start _ key,
          List.prefix_refl _, h.version_le⟩
      session := fun session hsession => by
        rw [h.session session hsession] at hwriter
        cases hwriter }

/-- **A field that is created** is one more of the write transaction.

**Proof sketch.** A creation that succeeds adds one record under a new name, with the version of the
transaction. -/
theorem create (h : Catalogs count index registry) (hcount : count < 2 ^ 64)
    (hfree : index.free = some txn) {name : String} {options : FieldOptions} {record : FieldRecord}
    (hfits : options.Fits) (hcreate : Catalog.create txn name options = .ok (record, txn')) :
    Catalogs count (index.withWriter txn')
      { registry with pending := registry.pending ++ [record] } := by
  obtain ⟨hsession, hwriter⟩ := free_eq_some_iff.mp hfree
  obtain ⟨hdefines, hprefix, hversion⟩ := h.writer txn hwriter
  have hbase : txn'.version = txn.version := by
    obtain ⟨_, _, _, _, rfl⟩ := hdefines.create_eq_ok_iff.mp hcreate
    rfl
  exact {
    committed := h.committed
    version_le := h.version_le
    writer := by
      rintro _ ⟨⟩
      rw [hbase]
      exact ⟨hdefines.create hfits (Nat.lt_of_le_of_lt hversion hcount) hcreate,
        hprefix.trans (List.prefix_append _ _), hversion⟩
    session := fun session hsome => by
      rw [show index.session = some session from hsome] at hsession
      cases hsession }

/-- A session works in the write transaction. -/
lemma withSession (h : Catalogs count index registry) {next : Index}
    (hstore : next.store = index.store)
    (hsession : ∀ session, next.session = some session → index.store.writer = some session.txn) :
    Catalogs count next registry where
  committed := by
    rw [hstore]
    exact h.committed
  version_le := by
    rw [hstore]
    exact h.version_le
  writer := by
    rw [hstore]
    exact h.writer
  session := by
    rw [hstore]
    exact hsession

/-- **Registering a vector** leaves the catalog as it is.

**Proof sketch.** A session writes no definitions. -/
theorem register (h : Catalogs count index registry) (hsession : index.session = some session)
    (id : UInt64) (raw : Bytes) (level : Option Nat) :
    Catalogs count (index.register session id raw level) registry := by
  have hsame := WriteTransaction.SameCatalog.registerAtLevel session id raw level
  have hwriter := h.session session hsession
  unfold Index.register
  generalize session.registerAtLevel id raw level = result at hsame
  obtain ⟨next, answer⟩ := result
  cases answer with
  | ok _ => exact h.withWriter hwriter hsame rfl (by rintro _ ⟨⟩; rfl)
  | error e => exact h.withWriter hwriter hsame rfl (by rintro _ ⟨⟩; rfl)

/-- **Ending a session** leaves the catalog as it is, whether it can be committed or not. -/
theorem finish (h : Catalogs count index registry) (hsession : index.session = some session) :
    Catalogs count (index.finish session) registry := by
  have hwriter := h.session session hsession
  unfold Index.finish
  cases hcommit : session.commit with
  | ok result => exact h.withWriter hwriter (.commit hcommit) rfl fun _ hsome => by cases hsome
  | error e => exact h.withSession rfl fun _ hsome => by cases hsome

/-- A commit is of all that the write transaction has. -/
lemma commit (h : Catalogs count index registry) (hfree : index.free = some txn)
    {ledger : Ledger} : Catalogs (count + 1)
      { index with store := { committed := txn.commit, writer := none }, committed := ledger }
      { registry with committed := registry.pending } := by
  obtain ⟨hsession, hwriter⟩ := free_eq_some_iff.mp hfree
  obtain ⟨hdefines, _, hversion⟩ := h.writer txn hwriter
  exact {
    committed := hdefines.congr fun key _ => WriteTransaction.get?_commit txn key
    version_le := Nat.succ_le_succ hversion
    writer := fun _ hsome => by cases hsome
    session := fun session hsome => by
      rw [show index.session = some session from hsome] at hsession
      cases hsession }

/-- **One operation keeps the invariant.**

**Proof sketch.** One case for each operation, compared with what the register notes of its answer.
An idle operation is not noted. -/
theorem step (h : Catalogs count index registry) (hcount : count < 2 ^ 64)
    (hfits : ∀ name options, op = .create name options → options.Fits) :
    Catalogs (count + 1) (index.step op) (registry.note (index.answer op)) := by
  have hsame := h.succ
  have hidle : op.Idles index →
      Catalogs (count + 1) (index.step op) (registry.note (index.answer op)) := fun hidle => by
    rw [step_of_idles hidle, answer_of_idles hidle]
    exact hsame
  cases op with
  | begin =>
    unfold Index.step Index.answer
    cases hbegin : index.store.beginWrite with
    | error e => exact hsame
    | ok store => exact (h.begin hbegin).succ
  | create name options =>
    cases hfree : index.free with
    | none => exact hidle hfree
    | some txn =>
      simp only [Index.step, whenFree_of_some hfree, Index.answer, hfree]
      cases hcreate : Catalog.create txn name options with
      | error e => exact hsame
      | ok created => exact (h.create hcount hfree (hfits name options rfl) hcreate).succ
  | start config name =>
    cases hfree : index.free with
    | none => exact hidle hfree
    | some txn =>
      simp only [Index.step, whenFree_of_some hfree, Index.answer, hfree]
      cases hstart : Registration.start config txn name with
      | error e => exact hsame
      | ok session =>
        refine hsame.withSession rfl ?_
        rintro _ ⟨⟩
        rw [(Registration.exists_of_start hstart).1]
        exact (free_eq_some_iff.mp hfree).2
  | reseed seed =>
    cases hsession : index.session with
    | none => exact hidle hsession
    | some session =>
      simp only [Index.step, whenOpen, hsession, Index.answer, Registration.withSeed]
      generalize Generator.ofSeed seed = generator
      refine hsame.withSession rfl ?_
      rintro _ ⟨⟩
      exact h.session session hsession
  | register id raw level =>
    cases hsession : index.session with
    | none => exact hidle hsession
    | some session =>
      simp only [Index.step, whenOpen, hsession, Index.answer]
      exact (h.register hsession id raw level).succ
  | finish =>
    cases hsession : index.session with
    | none => exact hidle hsession
    | some session =>
      simp only [Index.step, whenOpen, hsession, Index.answer]
      exact (h.finish hsession).succ
  | discard =>
    cases hsession : index.session with
    | none => exact hidle hsession
    | some session =>
      simp only [Index.step, whenOpen, hsession, Index.answer]
      refine hsame.withWriter (h.session session hsession) (.refl _) rfl fun _ hsome => ?_
      cases hsome
  | commit =>
    cases hfree : index.free with
    | none =>
      simp only [Index.step, whenFree_of_none hfree, Index.answer, hfree]
      exact hsame
    | some txn =>
      obtain ⟨hsession, hwriter⟩ := free_eq_some_iff.mp hfree
      simp only [step_commit hsession hwriter, Index.answer, hfree]
      exact h.commit hfree
  | abandon =>
    refine whenFree_cases (P := fun next => Catalogs (count + 1) next registry) hsame
      fun txn hsession _ =>
        ⟨hsame.committed, hsame.version_le, fun _ hsome => (by cases hsome), ?_⟩
    intro session hsome
    rw [show index.session = some session from hsome] at hsession
    cases hsession

/-- **What has been committed stays committed**, before whatever comes later. -/
theorem committed_prefix_note (h : Catalogs count index registry) (op : Operation) :
    registry.committed <+: (registry.note (index.answer op)).committed := by
  cases hanswer : index.answer op with
  | committed version =>
    obtain ⟨txn, hfree⟩ := exists_free_of_committed hanswer
    exact (h.writer txn (free_eq_some_iff.mp hfree).2).2.1
  | begun result => cases result <;> exact List.prefix_refl _
  | created result => cases result <;> exact List.prefix_refl _
  | _ => exact List.prefix_refl _

/-- **Operations keep the invariant**, and what has been committed comes first of what they
commit.

**Proof sketch.** Induction on the operations. What is committed grows at its end only. -/
theorem foldl (h : Catalogs count index registry) (hcount : count + ops.length ≤ 2 ^ 64)
    (hfits : ∀ name options, .create name options ∈ ops → options.Fits) :
    Catalogs (count + ops.length) (ops.foldl Index.step index)
        ((index.answers ops).foldl Registry.note registry) ∧
      registry.committed <+: ((index.answers ops).foldl Registry.note registry).committed := by
  induction ops generalizing count index registry with
  | nil => exact ⟨h, List.prefix_refl _⟩
  | cons op ops ih =>
    rw [List.length_cons, ← Nat.add_assoc, Nat.add_right_comm] at hcount ⊢
    have hstep : Catalogs (count + 1) (index.step op) (registry.note (index.answer op)) :=
      h.step (by omega) fun name options hop => hfits name options (hop ▸ List.mem_cons_self ..)
    obtain ⟨hlater, hprefix⟩ := ih hstep hcount fun name options hop =>
      hfits name options (List.mem_cons_of_mem _ hop)
    exact ⟨hlater, (h.committed_prefix_note op).trans hprefix⟩

end Catalogs

/-! ## The catalog of every transaction -/

/-- **The fields of an index are those of the register** that follows its operations. -/
theorem catalogs_run (hcount : ops.length ≤ 2 ^ 64)
    (hfits : ∀ name options, .create name options ∈ ops → options.Fits) :
    Catalogs ops.length (run ops) (Registry.after ops) := by
  have hrun := (Catalogs.empty.foldl (by rwa [Nat.zero_add]) hfits).1
  rwa [Nat.zero_add] at hrun

/-- The answers to operations, and then to further ones. -/
lemma answers_append (index : Index) (ops more : List Operation) :
    index.answers (ops ++ more) = index.answers ops ++ (ops.foldl step index).answers more := by
  induction ops generalizing index with
  | nil => rfl
  | cons op ops ih => rw [List.cons_append, answers, ih, answers, List.foldl_cons, List.cons_append]

/-- The invariant held at any earlier time. -/
lemma catalogs_run_before {before later : List Operation}
    (hcount : (before ++ later).length ≤ 2 ^ 64)
    (hfits : ∀ name options, .create name options ∈ before ++ later → options.Fits) :
    Catalogs before.length (run before) (Registry.after before) := by
  rw [List.length_append] at hcount
  exact catalogs_run ((Nat.le_add_right _ _).trans hcount) fun name options hop =>
    hfits name options (List.mem_append_left _ hop)

/-- **What has been committed comes first of what is committed later.** -/
theorem committed_prefix_after {before later : List Operation}
    (hcount : (before ++ later).length ≤ 2 ^ 64)
    (hfits : ∀ name options, .create name options ∈ before ++ later → options.Fits) :
    (Registry.after before).committed <+: (Registry.after (before ++ later)).committed := by
  have hbefore := catalogs_run_before hcount hfits
  rw [List.length_append] at hcount
  rw [Registry.after, Registry.after, answers_append, List.foldl_append]
  exact (hbefore.foldl hcount fun name options hop =>
    hfits name options (List.mem_append_right _ hop)).2

/-- **The catalog of every transaction.** -/
theorem Opens.defines {view : Snapshot} {records : List FieldRecord} (h : Opens ops view records)
    (hcount : ops.length ≤ 2 ^ 64)
    (hfits : ∀ name options, .create name options ∈ ops → options.Fits) : view.Defines records := by
  cases h with
  | reader h =>
    subst h
    exact (catalogs_run_before hcount hfits).committed
  | writer h => exact ((catalogs_run hcount hfits).writer _ h).1

/-- **The field catalog is append-only.** After any operations, every transaction that has been
opened lists exactly the names of the fields that have been created and that it sees, in strictly
ascending byte order; it finds each of them with the definition that was answered when it was
created, and no others. In the write transaction a field is created exactly if its name and its
options are valid and its name is not taken, and else nothing changes. A transaction has all fields
that have been committed before it.

**Proof sketch.** A key with the stem of definitions is that of a definition, and it ends where the
name ends. So a field that is created puts one new key, and what a session writes puts none of
them. -/
theorem catalog_append_only {ops : List Operation} (hcount : ops.length ≤ 2 ^ 64)
    (hfits : ∀ name options, .create name options ∈ ops → options.Fits) :
    (∀ view records, Opens ops view records →
      (Catalog.names view).Pairwise (fun a b => Bytes.ofText a < Bytes.ofText b) ∧
      (∀ name, name ∈ Catalog.names view ↔ name ∈ records.map FieldRecord.name) ∧
      (∀ record ∈ records, Catalog.find view record.name = .ok record) ∧
      ∀ name, name ∉ Catalog.names view → Catalog.find view name = .error (.fieldNotFound name)) ∧
    (∀ txn name options, (run ops).free = some txn →
      (Creatable txn.view name options → (run ops).answer (.create name options) =
        .created (.ok { name, options, createdVersion := txn.version })) ∧
      (¬Creatable txn.view name options →
        (∃ e, (run ops).answer (.create name options) = .created (.error e)) ∧
          (run ops).step (.create name options) = run ops)) ∧
    (∀ before later, before ++ later = ops →
      (Registry.after before).committed <+: (Registry.after ops).committed) ∧
    ∀ txn, (run ops).store.writer = some txn →
      (Registry.after ops).committed <+: (Registry.after ops).pending := by
  have hcatalogs := catalogs_run hcount hfits
  refine ⟨fun view records hopens => ?_, fun txn name options hfree => ?_, ?_,
    fun txn hwriter => (hcatalogs.writer txn hwriter).2.1⟩
  · have hdefines := hopens.defines hcount hfits
    exact ⟨Catalog.pairwise_names view, fun name => hdefines.mem_names_iff,
      fun record => hdefines.find, fun name hname =>
        hdefines.find_eq_error (hdefines.mem_names_iff.not.mp hname)⟩
  · obtain ⟨hdefines, _⟩ := hcatalogs.writer txn (free_eq_some_iff.mp hfree).2
    simp only [answer, step, hfree, whenFree_of_some hfree]
    refine ⟨fun hcreatable => ?_, fun hcreatable => ?_⟩
    · obtain ⟨hname, hoptions, hnew⟩ := hcreatable
      rw [hdefines.create_eq_ok_iff.mpr ⟨hname, hoptions, hnew, rfl, rfl⟩]
      rfl
    · cases hcreate : Catalog.create txn name options with
      | error e => exact ⟨⟨e, rfl⟩, rfl⟩
      | ok created =>
        obtain ⟨hname, hoptions, hnew, _⟩ := hdefines.create_eq_ok_iff.mp hcreate
        exact absurd ⟨hname, hoptions, hnew⟩ hcreatable
  · rintro before later rfl
    exact committed_prefix_after hcount hfits

/-- Fields of which one name begins like the other, a name that is not valid, one that is taken, a
field in a transaction that is abandoned, and one behind a session that is given up. -/
def browsing : List Operation :=
  [.begin, .create "v" (.ofShape 2 1), .create "v/" (.ofShape 2 1), .create "vv" (.ofShape 2 1),
    .create "v" (.ofShape 3 1), .commit, .begin, .create "a" (.ofShape 2 1), .abandon, .begin,
    .start {} "v", .discard, .create "u" (.ofShape 2 1)]

/-- Of six creations two are refused and one is abandoned: three fields are there in the end.

**Proof sketch.** The register can be computed, and it tells the fields of the last transaction. -/
theorem catalog_append_only_browsing :
    browsing.length ≤ 2 ^ 64 ∧
      (∀ name options, .create name options ∈ browsing → options.Fits) ∧
      ∃ txn, (run browsing).free = some txn ∧
        (∀ name, name ∈ Catalog.names txn.view ↔ name = "v" ∨ name = "vv" ∨ name = "u") ∧
        Catalog.find txn.view "vv" = .ok ⟨"vv", .ofShape 2 1, 0⟩ ∧
        Catalog.find txn.view "u" = .ok ⟨"u", .ofShape 2 1, 1⟩ ∧
        Catalog.find txn.view "a" = .error (.fieldNotFound "a") := by
  have hcount : browsing.length ≤ 2 ^ 64 := by decide
  have hfits : ∀ name options, .create name options ∈ browsing → options.Fits := by
    intro name options hop
    simp only [browsing, List.mem_cons, List.not_mem_nil, reduceCtorEq, or_false, false_or,
      Operation.create.injEq] at hop
    rcases hop with ⟨_, rfl⟩ | ⟨_, rfl⟩ | ⟨_, rfl⟩ | ⟨_, rfl⟩ | ⟨_, rfl⟩ | ⟨_, rfl⟩ <;>
      exact ⟨by decide, by decide, by decide⟩
  have hpending : (Registry.after browsing).pending =
      [⟨"v", .ofShape 2 1, 0⟩, ⟨"vv", .ofShape 2 1, 0⟩, ⟨"u", .ofShape 2 1, 1⟩] := rfl
  obtain ⟨txn, hfree⟩ : ∃ txn, (run browsing).free = some txn := ⟨_, rfl⟩
  obtain ⟨_, hnames, hfind, hother⟩ := (catalog_append_only hcount hfits).1 txn.view _
    (.writer (free_eq_some_iff.mp hfree).2)
  rw [hpending] at hnames hfind
  refine ⟨hcount, hfits, txn, hfree, fun name => ?_, hfind ⟨"vv", .ofShape 2 1, 0⟩ (by simp),
    hfind ⟨"u", .ofShape 2 1, 1⟩ (by simp), hother "a" ?_⟩
  · rw [hnames]
    simp
  · rw [hnames]
    simp

end Index

end Proximity

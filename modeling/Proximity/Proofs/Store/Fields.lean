import Proximity.Field.Catalog
import Proximity.Proofs.Graph.Storage
import Proximity.Proofs.Registration

set_option relaxedAutoImplicit false
set_option autoImplicit false

/-!
# The fields of a snapshot

What the operations on an index leave in the key space are the records of fields and nothing else.
Every field has accepted options and a sound graph of the vectors that it has accepted, and no two
fields share a container. Creating a field, handing out pages and writing back the graph of a field
keep it that way.

## Main definitions

* `Proximity.Ledger` — the vectors that each field has accepted.
* `Proximity.Snapshot.Sound` — the invariant of a snapshot.
* `Proximity.Snapshot.Changes` — a change to the records of one field.

## Main results

* `Proximity.Snapshot.Sound.congr` — what the invariant depends on.
* `Proximity.Snapshot.Sound.changed` — a change to one field keeps the invariant.
* `Proximity.Snapshot.Sound.create` — creating a field keeps the invariant.
* `Proximity.Snapshot.Sound.flushed` — so does writing back a graph with more vectors.
-/

namespace Proximity

open MessagePack

/-- The vectors that each field has accepted, in the order in which they were accepted. -/
abbrev Ledger := String → List Accepted

/-- What is true of the definition of a field that has been created. -/
structure FieldRecord.Valid (field : FieldRecord) : Prop where
  name : FieldName.validate field.name = .ok ()
  options : field.options.Accepted

namespace Snapshot

/-- **The invariant of a snapshot**: all records belong to fields, and each field has a sound graph
of the vectors that it has accepted, in containers of its own. -/
structure Sound (view : Snapshot) (ledger : Ledger) : Prop where
  key : ∀ key value, view.get? key = some value → ∃ record : RecordKey, record.bytes = key ∧
    record.IsPlain ∧ (view.get? (RecordKey.field record.name).bytes).isSome = true
  field : ∀ name, (view.get? (RecordKey.field name).bytes).isSome = true →
    ∃ field, Catalog.find view name = .ok field ∧ field.name = name ∧ field.Valid
  graph : ∀ name field, Catalog.find view name = .ok field →
    ∃ contents, view.Holds name contents ∧ contents.Sound field (ledger name) ∧
      contents.Backed view
  disjoint : ∀ a b field field', a ≠ b → Catalog.find view a = .ok field →
    Catalog.find view b = .ok field' → ∀ page,
      (view.get? (RecordKey.container a page).bytes).isSome = true →
        view.get? (RecordKey.container b page).bytes = none
  unknown : ∀ name, view.get? (RecordKey.field name).bytes = none → ledger name = []

/-- One snapshot has gone on from another by changes to the records of one field and to the runs of
its containers, and then holds a graph of the field. -/
structure Changes (view next : Snapshot) (name : String) (contents : GraphContents) : Prop where
  key : ∀ key value, next.get? key = some value → view.get? key = some value ∨
    ∃ record : RecordKey, record.bytes = key ∧ record.name = name ∧ record.IsPlain
  definition : ∀ other, other ≠ name →
    next.get? (RecordKey.field other).bytes = view.get? (RecordKey.field other).bytes
  other : ∀ record : RecordKey, record.IsPlain → record.name ≠ name →
    next.get? record.bytes = view.get? record.bytes
  nextPage_le : view.nextPage ≤ next.nextPage
  run : ∀ page, contents.container page = none → next.run page = view.run page
  holds : next.Holds name contents

/-- A graph that a snapshot holds has the runs of its containers. -/
lemma Holds.run_eq {view : Snapshot} {name : String} {contents : GraphContents}
    (h : view.Holds name contents) {page : PageId} {container : Container}
    (hcontainer : contents.container page = some container) :
    view.run page = .ok container.run := by
  have hpage := h.container page
  rw [hcontainer] at hpage
  obtain ⟨stored, _, hstored⟩ := Option.map_eq_some_iff.mp hpage
  obtain ⟨record, _, hread⟩ := Except.bind_eq_ok_iff.mp hstored
  cases hrun : view.run page with
  | error cause => simp [hrun] at hread
  | ok run =>
    simp only [hrun, Except.pure_eq_ok, Except.ok.injEq] at hread
    rw [← hread]

/-- A snapshot that holds a graph has a record for each of its containers, and no others. -/
lemma Holds.isSome_get?_container {view : Snapshot} {name : String} {contents : GraphContents}
    (h : view.Holds name contents) (page : PageId) :
    (view.get? (RecordKey.container name page).bytes).isSome =
      (contents.container page).isSome := by
  have hpage := congrArg Option.isSome (h.container page)
  rwa [Option.isSome_map, Option.isSome_map] at hpage

/-- A field that is found has a definition. -/
lemma isSome_get?_of_find {view : Snapshot} {name : String} {field : FieldRecord}
    (h : Catalog.find view name = .ok field) :
    (view.get? (RecordKey.field name).bytes).isSome = true := by
  rw [Catalog.find] at h
  cases hstored : view.get? (RecordKey.field name).bytes with
  | none => simp [hstored] at h
  | some stored => rfl

/-- Nothing has been accepted in an empty snapshot. -/
lemma sound_empty : empty.Sound fun _ => [] where
  key key value h := by simp [get?, empty] at h
  field name h := by simp [get?, empty] at h
  graph name field h := absurd (isSome_get?_of_find h) (by simp [get?, empty])
  disjoint a b field _ _ h := absurd (isSome_get?_of_find h) (by simp [get?, empty])
  unknown _ _ := rfl

namespace Sound

variable {view next : Snapshot} {ledger : Ledger} {name : String} {field : FieldRecord}

/-- What is known of the definition of a field. -/
lemma valid (h : view.Sound ledger) (hfind : Catalog.find view name = .ok field) :
    field.name = name ∧ field.Valid := by
  obtain ⟨field', hfind', hname, hvalid⟩ := h.field name (isSome_get?_of_find hfind)
  obtain rfl := Except.ok.inj (hfind.symm.trans hfind')
  exact ⟨hname, hvalid⟩

/-- The graph that a snapshot holds for a field is the sound one. -/
lemma sound_of_holds (h : view.Sound ledger) (hfind : Catalog.find view name = .ok field)
    {contents : GraphContents} (hholds : view.Holds name contents) :
    contents.Sound field (ledger name) ∧ contents.Backed view := by
  obtain ⟨found, hfound, hsound, hbacked⟩ := h.graph name field hfind
  obtain rfl := hholds.unique hfound
  exact ⟨hsound, hbacked⟩

/-- The name of a field that is found has no slash. -/
lemma slash_notMem (h : view.Sound ledger) (hfind : Catalog.find view name = .ok field) :
    '/' ∉ name.toList := by
  obtain ⟨rfl, hvalid⟩ := h.valid hfind
  exact FieldName.slash_notMem_of_validate hvalid.name

/-- A field that has not been created has no records. -/
lemma get?_eq_none (h : view.Sound ledger) {record : RecordKey} (hplain : record.IsPlain)
    (hnone : view.get? (RecordKey.field record.name).bytes = none) :
    view.get? record.bytes = none := by
  cases hstored : view.get? record.bytes with
  | none => rfl
  | some value =>
    obtain ⟨other, hbytes, hother, hsome⟩ := h.key _ value hstored
    rw [(RecordKey.bytes_inj hother hplain).mp hbytes, hnone] at hsome
    exact absurd hsome (by simp)

/-- The invariant depends on the key space and on the runs that have been handed out.

**Proof sketch.** All parts speak of the keys and of the runs below the next page. -/
theorem congr (h : view.Sound ledger) (hget : ∀ key, next.get? key = view.get? key)
    (hpage : view.nextPage ≤ next.nextPage)
    (hrun : ∀ page, page.number < view.nextPage → next.run page = view.run page) :
    next.Sound ledger := by
  have hfind : ∀ name, Catalog.find next name = Catalog.find view name := fun name => by
    rw [Catalog.find, Catalog.find, hget]
  exact {
    key := by simpa only [hget] using h.key
    field := by simpa only [hget, hfind] using h.field
    graph := by
      intro name field hfield
      rw [hfind] at hfield
      obtain ⟨contents, hholds, hsound, hbacked⟩ := h.graph name field hfield
      refine ⟨contents, hholds.congr (fun key _ _ => hget key.bytes) (fun page container hin =>
        hrun page (hbacked page container hin).1), hsound, fun page container hin => ?_⟩
      obtain ⟨hlt, hsize⟩ := hbacked page container hin
      exact ⟨UInt64.lt_of_lt_of_le hlt hpage, hrun page hlt ▸ hsize⟩
    disjoint := by simpa only [hget, hfind] using h.disjoint
    unknown := by simpa only [hget] using h.unknown }

/-- A transaction that has only handed out pages keeps the invariant. -/
lemma extends_txn {txn txn' : WriteTransaction} (h : txn.view.Sound ledger)
    (hextends : txn.Extends txn') : txn'.view.Sound ledger :=
  h.congr hextends.sameEntries.get? hextends.nextPage_le hextends.run

/-- A graph stays in the store while runs are handed out. -/
lemma holds_extends_txn {txn txn' : WriteTransaction} {contents : GraphContents}
    (h : txn.view.Sound ledger) (hfind : Catalog.find txn.view name = .ok field)
    (hholds : txn.view.Holds name contents) (hextends : txn.Extends txn') :
    txn'.view.Holds name contents := by
  obtain ⟨_, hbacked⟩ := h.sound_of_holds hfind hholds
  exact hholds.congr (fun key _ _ => hextends.sameEntries.get? key.bytes)
    fun page container hcontainer => hextends.run page (hbacked page container hcontainer).1

/-- No field has a container at a page that has not been handed out. -/
lemma get?_container_eq_none (h : view.Sound ledger) (hfind : Catalog.find view name = .ok field)
    {page : PageId} (hpage : view.nextPage ≤ page.number) :
    view.get? (RecordKey.container name page).bytes = none := by
  obtain ⟨contents, hholds, _, hbacked⟩ := h.graph name field hfind
  have hrecord := hholds.isSome_get?_container page
  cases hcontainer : contents.container page with
  | none => rwa [hcontainer, Option.isSome_none, Option.isSome_eq_false_iff,
      Option.isNone_iff_eq_none] at hrecord
  | some container =>
    exact absurd (hbacked page container hcontainer).1 (UInt64.not_lt.mpr hpage)

/-! ### Changing one field -/

variable {vectors : List Accepted} {contents : GraphContents}

/-- **Changing the records of one field keeps the graphs of the others**, if the field has
containers of its own.

**Proof sketch.** The other field has containers of its own, so that neither its keys nor its runs
are changed. -/
theorem holds_of_changes (h : view.Sound ledger) (hchanges : Changes view next name contents)
    (hapart : ∀ other field', other ≠ name → Catalog.find view other = .ok field' → ∀ page,
      (contents.container page).isSome = true →
        view.get? (RecordKey.container other page).bytes = none)
    {other : String} {field' : FieldRecord} {contents' : GraphContents} (hne : other ≠ name)
    (hfind : Catalog.find view other = .ok field') (hholds : view.Holds other contents') :
    (∀ page container, contents'.container page = some container →
      next.run page = view.run page) ∧ next.Holds other contents' := by
  have hrun : ∀ page container, contents'.container page = some container →
      next.run page = view.run page := by
    intro page container hin
    refine hchanges.run page (Option.not_isSome_iff_eq_none.mp fun hown => ?_)
    have hpresent := hholds.isSome_get?_container page
    rw [hapart other field' hne hfind page hown, hin] at hpresent
    exact absurd hpresent (by simp)
  refine ⟨hrun, hholds.congr (fun record hrecord _ => hchanges.other record ?_ ?_) hrun⟩
  · rw [RecordKey.IsPlain, hrecord]
    exact h.slash_notMem hfind
  · rwa [hrecord]

/-- **Changing the records of one field keeps the invariant**, if the field then has a sound graph
in containers of its own.

**Proof sketch.** The field has the new graph. All other fields have the graphs that they had, in
containers of their own. -/
theorem changed (h : view.Sound ledger) (hchanges : Changes view next name contents)
    (hfind : Catalog.find next name = .ok field) (hvalid : field.name = name ∧ field.Valid)
    (hsound : contents.Sound field vectors) (hbacked : contents.Backed next)
    (hapart : ∀ other field', other ≠ name → Catalog.find view other = .ok field' → ∀ page,
      (contents.container page).isSome = true →
        view.get? (RecordKey.container other page).bytes = none) :
    next.Sound (Function.update ledger name vectors) := by
  have hfind' : ∀ other, other ≠ name → Catalog.find next other = Catalog.find view other :=
    fun other hne => by rw [Catalog.find, Catalog.find, hchanges.definition other hne]
  have hcontainers := hchanges.holds.isSome_get?_container
  have hkeep : ∀ other, (view.get? (RecordKey.field other).bytes).isSome = true →
      (next.get? (RecordKey.field other).bytes).isSome = true := by
    intro other hsome
    by_cases hname : other = name
    · rw [hname]
      exact isSome_get?_of_find hfind
    · rwa [hchanges.definition other hname]
  have hother : ∀ other field', other ≠ name → Catalog.find view other = .ok field' → ∀ page,
      next.get? (RecordKey.container other page).bytes =
        view.get? (RecordKey.container other page).bytes := fun other field' hne hold page =>
    hchanges.other (.container other page) (h.slash_notMem hold) hne
  exact {
    key := by
      intro key value hvalue
      rcases hchanges.key key value hvalue with hold | ⟨record, rfl, rfl, hplain⟩
      · obtain ⟨record, hbytes, hplain, hsome⟩ := h.key key value hold
        exact ⟨record, hbytes, hplain, hkeep record.name hsome⟩
      · exact ⟨record, rfl, hplain, isSome_get?_of_find hfind⟩
    field := by
      intro other hsome
      by_cases hname : other = name
      · subst hname
        exact ⟨field, hfind, hvalid⟩
      · rw [hchanges.definition other hname] at hsome
        rw [hfind' other hname]
        exact h.field other hsome
    graph := by
      intro other field' hfield
      by_cases hname : other = name
      · subst hname
        obtain rfl := Except.ok.inj (hfind.symm.trans hfield)
        rw [Function.update_self]
        exact ⟨contents, hchanges.holds, hsound, hbacked⟩
      rw [hfind' other hname] at hfield
      rw [Function.update_of_ne hname]
      obtain ⟨contents', hholds, hsound', hbacked'⟩ := h.graph other field' hfield
      obtain ⟨hrun, hholds'⟩ := h.holds_of_changes hchanges hapart hname hfield hholds
      refine ⟨contents', hholds', hsound', fun page container hin => ?_⟩
      rw [hrun page container hin]
      obtain ⟨hlt, hsize⟩ := hbacked' page container hin
      exact ⟨UInt64.lt_of_lt_of_le hlt hchanges.nextPage_le, hsize⟩
    disjoint := by
      intro a b field₁ field₂ hab ha hb page hsome
      by_cases haname : a = name
      · subst haname
        rw [hfind' b (Ne.symm hab)] at hb
        rw [hcontainers] at hsome
        rw [hother b field₂ (Ne.symm hab) hb]
        exact hapart b field₂ (Ne.symm hab) hb page hsome
      rw [hfind' a haname] at ha
      rw [hother a field₁ haname ha] at hsome
      by_cases hbname : b = name
      · subst hbname
        refine Option.not_isSome_iff_eq_none.mp fun hown => ?_
        rw [hapart a field₁ haname ha page (hcontainers page ▸ hown)] at hsome
        exact absurd hsome (by simp)
      · rw [hfind' b hbname] at hb
        rw [hother b field₂ hbname hb]
        exact h.disjoint a b field₁ field₂ hab ha hb page hsome
    unknown := by
      intro other hnone
      have hname : other ≠ name := fun heq => by
        have hsome := isSome_get?_of_find hfind
        rw [heq] at hnone
        rw [hnone] at hsome
        exact absurd hsome (by simp)
      rw [hchanges.definition other hname] at hnone
      rw [Function.update_of_ne hname, h.unknown other hnone] }

/-! ### Creating a field -/

/-- Definitions under the same key are of the same field. -/
lemma field_bytes_inj {a b : String}
    (h : (RecordKey.field a).bytes = (RecordKey.field b).bytes) : a = b :=
  Bytes.ofText_injective (List.append_cancel_left h)

/-- The key of a definition is the key of no other record. -/
lemma field_bytes_ne (name : String) {record : RecordKey} (h : ∀ other, record ≠ .field other) :
    (RecordKey.field name).bytes ≠ record.bytes := by
  cases record with
  | field other => exact absurd rfl (h other)
  | graph other => simp [RecordKey.bytes, RecordKey.fieldStem_eq, RecordKey.graphStem_eq]
  | node other id => simp [RecordKey.bytes, RecordKey.fieldStem_eq, RecordKey.nodeStem_eq]
  | container other page =>
    simp [RecordKey.bytes, RecordKey.fieldStem_eq, RecordKey.containerStem_eq]

/-- **A field can be created** if its name and its options are valid and there is no such field.

**Proof sketch.** The checks are made one after the other. -/
theorem create_eq_ok_iff {txn txn' : WriteTransaction} {options : FieldOptions}
    {record : FieldRecord} : Catalog.create txn name options = .ok (record, txn') ↔
      FieldName.validate name = .ok () ∧ options.Accepted ∧
        txn.view.get? (RecordKey.field name).bytes = none ∧
        record = { name, options, createdVersion := txn.version } ∧
        txn' = txn.put (RecordKey.field name).bytes (encode record) := by
  rw [WriteTransaction.get?_view, ← FieldOptions.validate_eq_ok_iff]
  simp only [Catalog.create, Except.bind_eq_ok_iff, Except.throw_eq_error, Except.error_bind,
    Except.pure_eq_ok]
  constructor
  · rintro ⟨_, hname, _, hoptions, hrest⟩
    split_ifs at hrest with hold
    rw [Except.ok.injEq, Prod.mk.injEq] at hrest
    obtain ⟨rfl, rfl⟩ := hrest
    rw [Bool.not_eq_true, Option.isSome_eq_false_iff, Option.isNone_iff_eq_none] at hold
    exact ⟨hname, hoptions, hold, rfl, rfl⟩
  · rintro ⟨hname, hoptions, hold, rfl, rfl⟩
    exact ⟨(), hname, (), hoptions, by rw [hold]; rfl⟩

/-- A field that has been created is found. -/
lemma find_create {txn txn' : WriteTransaction} {options : FieldOptions} {record : FieldRecord}
    (hfits : options.Fits) (hversion : txn.version < 2 ^ 64)
    (hcreate : Catalog.create txn name options = .ok (record, txn')) :
    Catalog.find txn'.view name = .ok record := by
  obtain ⟨hname, _, _, hrecord, rfl⟩ := create_eq_ok_iff.mp hcreate
  have hrecordfits : record.Fits := hrecord ▸ {
    name := Nat.lt_of_le_of_lt (FieldName.utf8ByteSize_le_of_validate hname) (by decide)
    options := hfits
    createdVersion := hversion }
  rw [Catalog.find, WriteTransaction.get?_view_put, if_pos rfl]
  exact FieldRecord.decode_encode hrecordfits

/-- Creating a field changes its definition, and it has no other records.

**Proof sketch.** Only the key of the definition is written, and a field without a definition has no
records. -/
lemma changes_create {txn txn' : WriteTransaction} {options : FieldOptions} {record : FieldRecord}
    (h : txn.view.Sound ledger) (hcreate : Catalog.create txn name options = .ok (record, txn')) :
    Changes txn.view txn'.view name .blank := by
  obtain ⟨hname, hoptions, hold, hrecord, rfl⟩ := create_eq_ok_iff.mp hcreate
  have hplain : '/' ∉ name.toList := FieldName.slash_notMem_of_validate hname
  set value := encode record with hvalue
  have hother : ∀ record' : RecordKey, record' ≠ .field name → record'.IsPlain →
      (txn.put (RecordKey.field name).bytes value).view.get? record'.bytes =
        txn.view.get? record'.bytes := by
    intro record' hne hplain'
    rw [WriteTransaction.get?_view_put, if_neg fun heq => hne ?_]
    exact ((RecordKey.bytes_inj (show (RecordKey.field name).IsPlain from hplain)
      hplain').mp heq).symm
  have hnone : ∀ record' : RecordKey, record'.name = name → record' ≠ .field name →
      (txn.put (RecordKey.field name).bytes value).view.get? record'.bytes = none := by
    rintro record' rfl hne
    rw [hother record' hne hplain]
    exact h.get?_eq_none hplain hold
  exact {
    key := by
      intro key value' hget
      rw [WriteTransaction.get?_view_put] at hget
      split_ifs at hget with heq
      · exact .inr ⟨.field name, heq, rfl, hplain⟩
      · exact .inl hget
    definition := fun other hne => by
      rw [WriteTransaction.get?_view_put, if_neg fun heq => hne (field_bytes_inj heq).symm]
    other := fun record' hplain' hne => hother record' (fun heq => hne (by rw [heq]; rfl)) hplain'
    nextPage_le := UInt64.le_refl _
    run := fun page _ => txn.run_view_put _ _ page
    holds := {
      header := by rw [GraphHeader.find, hnone (.graph name) rfl (by simp)]; rfl
      node := fun id => by rw [hnone (.node name id) rfl (by simp)]; rfl
      container := fun page => by rw [hnone (.container name page) rfl (by simp)]; rfl } }

/-- **Creating a field keeps the invariant**: the new field has no vectors.

**Proof sketch.** A blank graph is sound for no vectors. -/
theorem create {txn txn' : WriteTransaction} {options : FieldOptions} {record : FieldRecord}
    (h : txn.view.Sound ledger) (hfits : options.Fits) (hversion : txn.version < 2 ^ 64)
    (hcreate : Catalog.create txn name options = .ok (record, txn')) : txn'.view.Sound ledger := by
  have hfind := find_create hfits hversion hcreate
  have hchanges := h.changes_create hcreate
  obtain ⟨hname, hoptions, hold, hrecord, rfl⟩ := create_eq_ok_iff.mp hcreate
  have hvalid : record.name = name ∧ record.Valid := by
    rw [hrecord]
    exact ⟨rfl, hname, hoptions⟩
  have hsound := h.changed hchanges hfind hvalid (GraphContents.sound_blank record)
    (fun _ _ hin => by simp [GraphContents.blank] at hin)
    fun _ _ _ _ _ hin => by simp [GraphContents.blank] at hin
  rwa [← h.unknown name hold, Function.update_eq_self] at hsound

/-! ### Writing back a graph -/

/-- Writing back a graph changes no definition. -/
lemma get?_field_of_flushed {txn txn' : WriteTransaction} {contents : GraphContents}
    (h : FieldGraph.Flushed name contents txn txn') (other : String) :
    txn'.view.get? (RecordKey.field other).bytes = txn.view.get? (RecordKey.field other).bytes := by
  refine h.get?_of_ne _ fun record hname hne => field_bytes_ne other fun other' heq => ?_
  rw [heq] at hname hne
  exact hne (congrArg RecordKey.field hname)

/-- Writing out the graph of a field leaves the definitions of all fields. -/
lemma find_of_flushed {txn txn' : WriteTransaction} {contents : GraphContents}
    (h : FieldGraph.Flushed name contents txn txn') (other : String) :
    Catalog.find txn'.view other = Catalog.find txn.view other := by
  rw [Catalog.find, Catalog.find, get?_field_of_flushed h]

/-- Writing back the graph of a field changes records of the field and runs of its containers.

**Proof sketch.** What is written are records of the field and runs in its containers. -/
lemma changes_of_flushed {txn txn' : WriteTransaction} {contents : GraphContents}
    (h : txn.view.Sound ledger) (hfind : Catalog.find txn.view name = .ok field)
    (hflushed : FieldGraph.Flushed name contents txn txn') :
    Changes txn.view txn'.view name contents := by
  have hplain := h.slash_notMem hfind
  exact {
    key := by
      intro key value hvalue
      by_cases hkey : ∃ record : RecordKey, record.name = name ∧ record ≠ .field name ∧
          key = record.bytes
      · obtain ⟨record, rfl, _, rfl⟩ := hkey
        exact .inr ⟨record, rfl, rfl, hplain⟩
      · rw [hflushed.get?_of_ne key fun record hname hne heq =>
          hkey ⟨record, hname, hne, heq⟩] at hvalue
        exact .inl hvalue
    definition := fun other _ => get?_field_of_flushed hflushed other
    other := by
      intro record hrecord hne
      refine hflushed.get?_of_ne _ fun record' hname _ heq => hne ?_
      have hplain' : record'.IsPlain := by rwa [RecordKey.IsPlain, hname]
      rw [(RecordKey.bytes_inj hrecord hplain').mp heq, hname]
    nextPage_le := by
      rw [WriteTransaction.nextPage_view, WriteTransaction.nextPage_view, hflushed.nextPage]
      exact UInt64.le_refl _
    run := hflushed.run_of_none
    holds := hflushed.holds }

/-- **Writing back the graph of a field keeps the invariant**, with the vectors that the graph has
more than before.

**Proof sketch.** Only records of the field have changed, and only runs of its containers, none of
which belongs to another field. -/
theorem flushed {txn txn' : WriteTransaction} {contents : GraphContents} {vectors : List Accepted}
    (h : txn.view.Sound ledger) (hfind : Catalog.find txn.view name = .ok field)
    (hflushed : FieldGraph.Flushed name contents txn txn')
    (hsound : contents.Sound field vectors) (hbacked : contents.Backed txn.view)
    (hapart : ∀ other field', other ≠ name → Catalog.find txn.view other = .ok field' →
      ∀ page, (contents.container page).isSome = true →
        txn.view.get? (RecordKey.container other page).bytes = none) :
    txn'.view.Sound (Function.update ledger name vectors) := by
  refine h.changed (h.changes_of_flushed hfind hflushed)
    ((find_of_flushed hflushed name).trans hfind) (h.valid hfind) hsound
    (fun page container hin => ⟨?_, container.run, hflushed.holds.run_eq hin, rfl⟩) hapart
  rw [WriteTransaction.nextPage_view, hflushed.nextPage]
  exact (hbacked page container hin).1

end Sound

end Snapshot

end Proximity

import Proximity.Proofs.Registration.Runs
import Proximity.Proofs.Store.Scanning

set_option relaxedAutoImplicit false
set_option autoImplicit false

/-!
# The catalog of a snapshot

The catalog is what stands under the keys with the stem of field definitions. No other record has
such a key, whatever the name of its field is, so the catalog changes only where a field is created;
a name that begins like another one makes no difference, since a key ends where its name ends.
Sessions hand out page runs and write the records of graphs, which leaves the catalog as it is.

## Main definitions

* `Proximity.WriteTransaction.SameCatalog` — a transaction that has gone on from another without
  changing a definition.
* `Proximity.Snapshot.Defines` — the field definitions of a snapshot.

## Main results

* `Proximity.Catalog.pairwise_names` — the names of the fields are in byte order.
* `Proximity.WriteTransaction.SameCatalog.registerAtLevel`,
  `Proximity.WriteTransaction.SameCatalog.commit` — what a session does to the catalog.
* `Proximity.Snapshot.Defines.find`, `Proximity.Snapshot.Defines.mem_names_iff` — looking up fields.
* `Proximity.Snapshot.Defines.create` — one more field.
-/

namespace Proximity

open MessagePack

/-! ## Keys of definitions -/

namespace Bytes

/-- What is read as a text are the bytes of the text. -/
lemma toText?_eq_some_iff {bytes : Bytes} {text : String} :
    toText? bytes = some text ↔ bytes = ofText text := by
  refine ⟨fun h => ?_, fun h => h ▸ toText?_ofText text⟩
  unfold toText? String.fromUTF8? at h
  split_ifs at h with hvalid
  obtain rfl := Option.some.inj h
  rfl

end Bytes

namespace RecordKey

/-- The key of a field definition is the one with its name. -/
lemma fieldName?_eq_some_iff {key : Bytes} {name : String} :
    fieldName? key = some name ↔ key = (field name).bytes := by
  rw [fieldName?, Option.bind_eq_some_iff]
  constructor
  · rintro ⟨part, hpart, hname⟩
    rw [Bytes.after?_eq_some_iff.mp hpart, Bytes.toText?_eq_some_iff.mp hname]
    rfl
  · rintro rfl
    exact ⟨_, Bytes.after?_append _ _, Bytes.toText?_ofText name⟩

end RecordKey

/-- **The names of the fields are in byte order**, each of them once, in any snapshot. -/
theorem Catalog.pairwise_names (view : Snapshot) :
    (names view).Pairwise fun a b => Bytes.ofText a < Bytes.ofText b := by
  have hkeys := List.pairwise_map.mp (view.lists_scan RecordKey.fieldStem).ascending
  refine List.pairwise_filterMap.mpr (hkeys.imp fun {entry other} hlt a ha b hb => ?_)
  rw [RecordKey.fieldName?_eq_some_iff.mp ha, RecordKey.fieldName?_eq_some_iff.mp hb,
    ← Bytes.compare_eq_lt_iff, RecordKey.bytes, RecordKey.bytes, Bytes.compare_append_left] at hlt
  exact Bytes.compare_eq_lt_iff.mp hlt

/-! ## What sessions do to the catalog -/

/-- **A transaction has gone on from another without changing a definition.** -/
structure WriteTransaction.SameCatalog (txn txn' : WriteTransaction) : Prop where
  base : txn'.base = txn.base
  get? : ∀ key, RecordKey.fieldStem <+: key → txn'.view.get? key = txn.view.get? key

namespace WriteTransaction.SameCatalog

variable {txn txn' txn'' : WriteTransaction} {session : Registration}

/-- A transaction has the same fields as itself. -/
lemma refl (txn : WriteTransaction) : txn.SameCatalog txn where
  base := rfl
  get? _ _ := rfl

/-- To have the same fields is transitive. -/
lemma trans (h : txn.SameCatalog txn') (h' : txn'.SameCatalog txn'') : txn.SameCatalog txn'' where
  base := h'.base.trans h.base
  get? key hkey := (h'.get? key hkey).trans (h.get? key hkey)

/-- Transactions with the same entries have the same fields. -/
lemma of_sameEntries (h : txn.SameEntries txn') : txn.SameCatalog txn' where
  base := h.base
  get? key _ := h.get? key

/-- Handing out a page run leaves the fields. -/
lemma of_allocate {pages : Nat} {page : PageId} (h : txn.allocate pages = .ok (page, txn')) :
    txn.SameCatalog txn' := by
  have hzero : pages ≠ 0 := by
    rintro rfl
    cases h
  obtain ⟨found, hfound, hsame, _⟩ := txn.exists_allocate hzero
  obtain ⟨_, rfl⟩ := Prod.mk.inj (Except.ok.inj (h.symm.trans hfound))
  exact of_sameEntries hsame

/-- Writing a page run leaves the fields. -/
lemma of_writeRun {page : PageId} {contents : Run} (h : txn.writeRun page contents = .ok txn') :
    txn.SameCatalog txn' := by
  obtain ⟨current, hcurrent, hsize, _⟩ := exists_of_writeRun h
  obtain ⟨found, hfound, hsame, _⟩ := txn.exists_writeRun hcurrent hsize
  obtain rfl := Except.ok.inj (h.symm.trans hfound)
  exact of_sameEntries hsame

/-- Other records than definitions leave the catalog as it is. -/
lemma put {record : RecordKey} (h : ∀ name, record ≠ .field name) (value : Bytes) :
    txn.SameCatalog (txn.put record.bytes value) where
  base := rfl
  get? key hkey := by
    rw [get?_view_put, if_neg]
    rintro rfl
    exact RecordKey.not_fieldStem_prefix h hkey

/-- An insertion changes no definition, whether it succeeds or not. -/
lemma registerAt (session : Registration) (id : UInt64) (raw : Nat) (encoded : Bytes)
    (level : Nat) : session.txn.SameCatalog (session.registerAt id raw encoded level).1.txn := by
  have hinsert : ∀ {txn result}, session.insert ⟨id⟩ raw encoded level = (txn, result) →
      session.txn.SameCatalog txn := by
    intro txn result h
    rcases Registration.fst_insert_cases h with rfl | ⟨pages, page, _, hallocate⟩
    · exact .refl _
    · exact of_allocate hallocate
  unfold Registration.registerAt
  split
  · next h => exact hinsert h
  · next h => exact hinsert h

/-- **Registering changes no definition**, whether it succeeds or not.

**Proof sketch.** A vector that fails the check changes nothing, and an insertion writes no key. -/
theorem registerAtLevel (session : Registration) (id : UInt64) (raw : Bytes)
    (level : Option Nat) :
    session.txn.SameCatalog (session.registerAtLevel id raw level).1.txn := by
  cases hcheck : session.check id raw with
  | error e =>
    rw [Registration.registerAtLevel_of_check hcheck]
    exact .refl _
  | ok encoded =>
    cases level with
    | some level =>
      simp only [Registration.registerAtLevel, hcheck]
      exact registerAt session id raw.length encoded level
    | none =>
      obtain ⟨generator, level, _, hdraw⟩ := session.exists_drawLevel
      simp only [Registration.registerAtLevel, Registration.register, hcheck, hdraw]
      exact registerAt { session with generator } id raw.length encoded level

/-- **A session that commits changes no definition.** -/
theorem commit {count : Nat} (h : session.commit = .ok (count, txn)) :
    session.txn.SameCatalog txn :=
  FieldGraph.flush_preserves session.txn.SameCatalog
    (fun hnow hwrite => hnow.trans (of_writeRun hwrite))
    (fun _ value hrecord hnow => hnow.trans (put hrecord value)) (.refl _)
    (Registration.exists_of_commit h).2

end WriteTransaction.SameCatalog

/-! ## The definitions of a snapshot -/

/-- **The field definitions of a snapshot** are some records, which have different names: they stand
under their keys, and nothing else stands under a key with the stem of definitions. -/
structure Snapshot.Defines (view : Snapshot) (records : List FieldRecord) : Prop where
  fits : ∀ record ∈ records, record.Fits
  nodup : (records.map FieldRecord.name).Nodup
  get?_eq_some_iff : ∀ key value, RecordKey.fieldStem <+: key →
    (view.get? key = some value ↔
      ∃ record ∈ records, (RecordKey.field record.name).bytes = key ∧ encode record = value)

namespace Snapshot.Defines

variable {view next : Snapshot} {records : List FieldRecord} {record : FieldRecord} {name : String}

/-- An empty snapshot defines no field. -/
lemma empty : Snapshot.empty.Defines [] where
  fits record h := by cases h
  nodup := List.nodup_nil
  get?_eq_some_iff key value _ := by simp [Snapshot.get?, Snapshot.empty]

/-- The catalog depends on the keys of definitions only. -/
lemma congr (h : view.Defines records)
    (hsame : ∀ key, RecordKey.fieldStem <+: key → next.get? key = view.get? key) :
    next.Defines records where
  fits := h.fits
  nodup := h.nodup
  get?_eq_some_iff key value hkey := by
    rw [hsame key hkey]
    exact h.get?_eq_some_iff key value hkey

/-- What stands under the key of a definition. -/
lemma get?_field_eq_some_iff (h : view.Defines records) {value : Bytes} :
    view.get? (RecordKey.field name).bytes = some value ↔
      ∃ record ∈ records, record.name = name ∧ encode record = value := by
  rw [h.get?_eq_some_iff _ _ (RecordKey.fieldStem_prefix_field name)]
  constructor
  · rintro ⟨record, hrecord, hkey, hvalue⟩
    exact ⟨record, hrecord, Sound.field_bytes_inj hkey, hvalue⟩
  · rintro ⟨record, hrecord, rfl, hvalue⟩
    exact ⟨record, hrecord, rfl, hvalue⟩

/-- **A field that has been created is found**, with the definition that it has been given. -/
theorem find (h : view.Defines records) (hrecord : record ∈ records) :
    Catalog.find view record.name = .ok record := by
  have hstored := h.get?_field_eq_some_iff.mpr ⟨record, hrecord, rfl, rfl⟩
  rw [Catalog.find, hstored]
  exact FieldRecord.decode_encode (h.fits record hrecord)

/-- There is no definition for a name that no field has been created with. -/
lemma get?_eq_none_iff (h : view.Defines records) :
    view.get? (RecordKey.field name).bytes = none ↔ name ∉ records.map FieldRecord.name := by
  rw [Option.eq_none_iff_forall_ne_some, List.mem_map]
  constructor
  · rintro hnone ⟨record, hrecord, hname⟩
    exact hnone _ (h.get?_field_eq_some_iff.mpr ⟨record, hrecord, hname, rfl⟩)
  · intro hnone value hvalue
    obtain ⟨record, hrecord, hname, _⟩ := h.get?_field_eq_some_iff.mp hvalue
    exact hnone ⟨record, hrecord, hname⟩

/-- **No other field is found.** -/
theorem find_eq_error (h : view.Defines records) (hname : name ∉ records.map FieldRecord.name) :
    Catalog.find view name = .error (.fieldNotFound name) := by
  rw [Catalog.find, h.get?_eq_none_iff.mpr hname]

/-- **The names of the fields** are those that they have been created with.

**Proof sketch.** The keys of the definitions are listed, and each gives the name in it. -/
theorem mem_names_iff (h : view.Defines records) :
    name ∈ Catalog.names view ↔ name ∈ records.map FieldRecord.name := by
  simp only [Catalog.names, List.mem_filterMap, RecordKey.fieldName?_eq_some_iff, Prod.exists,
    (view.lists_scan RecordKey.fieldStem).mem_iff, List.mem_map]
  constructor
  · rintro ⟨_, value, ⟨_, hvalue⟩, rfl⟩
    obtain ⟨record, hrecord, hname, _⟩ := h.get?_field_eq_some_iff.mp hvalue
    exact ⟨record, hrecord, hname⟩
  · rintro ⟨record, hrecord, hname⟩
    exact ⟨_, encode record, ⟨RecordKey.fieldStem_prefix_field name,
      h.get?_field_eq_some_iff.mpr ⟨record, hrecord, hname, rfl⟩⟩, rfl⟩

variable {txn txn' : WriteTransaction} {options : FieldOptions}

/-- **A field can be created** if its name and its options are valid and the name is not taken. -/
theorem create_eq_ok_iff (h : txn.view.Defines records) :
    Catalog.create txn name options = .ok (record, txn') ↔
      FieldName.validate name = .ok () ∧ options.validate = .ok () ∧
        name ∉ Catalog.names txn.view ∧
        record = { name, options, createdVersion := txn.version } ∧
        txn' = txn.put (RecordKey.field name).bytes (encode record) := by
  rw [Sound.create_eq_ok_iff, FieldOptions.validate_eq_ok_iff, h.mem_names_iff,
    h.get?_eq_none_iff]

/-- **One more field** is one more definition.

**Proof sketch.** The name was free, so that the new definition is apart from the others. -/
theorem create (h : txn.view.Defines records) (hfits : options.Fits)
    (hversion : txn.version < 2 ^ 64)
    (hcreate : Catalog.create txn name options = .ok (record, txn')) :
    txn'.view.Defines (records ++ [record]) := by
  obtain ⟨hname, _, hnew, rfl, rfl⟩ := h.create_eq_ok_iff.mp hcreate
  set record : FieldRecord := { name, options, createdVersion := txn.version } with hrecord
  rw [h.mem_names_iff] at hnew
  exact {
    fits := by
      intro other hother
      rcases List.mem_append.mp hother with hother | hother
      · exact h.fits other hother
      · rw [List.mem_singleton.mp hother]
        exact {
          name := Nat.lt_of_le_of_lt (FieldName.utf8ByteSize_le_of_validate hname) (by decide)
          options := hfits
          createdVersion := hversion }
    nodup := by
      rw [List.map_append, List.nodup_append]
      exact ⟨h.nodup, List.nodup_singleton _, by
        rintro other hother _ hrecord rfl
        rw [List.mem_singleton.mp hrecord] at hother
        exact hnew hother⟩
    get?_eq_some_iff := by
      intro key value hkey
      rw [WriteTransaction.get?_view_put]
      split_ifs with heq
      · subst heq
        constructor
        · intro hvalue
          exact ⟨record, by simp, rfl, Option.some.inj hvalue⟩
        · rintro ⟨other, hother, hsame, hvalue⟩
          rcases List.mem_append.mp hother with hother | hother
          · exact absurd (List.mem_map.mpr ⟨other, hother, Sound.field_bytes_inj hsame⟩) hnew
          · rw [← hvalue, List.mem_singleton.mp hother]
      · rw [h.get?_eq_some_iff key value hkey]
        constructor
        · rintro ⟨other, hother, hrest⟩
          exact ⟨other, List.mem_append_left _ hother, hrest⟩
        · rintro ⟨other, hother, hsame, hvalue⟩
          rcases List.mem_append.mp hother with hother | hother
          · exact ⟨other, hother, hsame, hvalue⟩
          · rw [List.mem_singleton.mp hother] at hsame
            exact absurd hsame heq }

end Snapshot.Defines

end Proximity

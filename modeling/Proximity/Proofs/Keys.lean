import Proximity.Field.Key
import Proximity.Field.Name
import Proximity.Proofs.Bytes

set_option relaxedAutoImplicit false
set_option autoImplicit false

/-!
# The key space

A field name holds no slash, so the part of a key between the kind of its record and the next slash
is the field. Different records therefore have different keys, the keys that start with the stem of
a field are that field's, and the end of such a key is the number that it was made from.

## Main definitions

* `Proximity.RecordKey.name` — the field of a key.
* `Proximity.RecordKey.IsPlain` — the field of the key holds no slash.
* `Proximity.RecordKey.IsValid` — the field of the key has a valid name.

## Main results

* `Proximity.RecordKey.bytes_inj` — different records have different keys.
* `Proximity.RecordKey.startsWith_nodeStem_iff`,
  `Proximity.RecordKey.startsWith_containerStem_iff`,
  `Proximity.RecordKey.startsWith_fieldStem_iff` — whose keys start with a stem.
* `Proximity.RecordKey.bind_number?_eq_some_iff` — the number at the end of a key.
* `Proximity.RecordKey.compare_container_bytes`, `Proximity.RecordKey.compare_node_bytes` — the
  order of numbered keys.
* `Proximity.RecordKey.keys_laid_out` — the layout of the key space.
-/

namespace Proximity

namespace FieldName

/-- A name that is accepted has no fault. -/
lemma fault?_of_validate {name : String} (h : validate name = .ok ()) : fault? name = none := by
  unfold validate at h
  split at h
  · simp at h
  · assumption

/-- A name that passed the check holds no slash. -/
lemma slash_notMem_of_validate {name : String} (h : validate name = .ok ()) :
    '/' ∉ name.toList := by
  intro hslash
  have hfault := fault?_of_validate h
  unfold fault? at hfault
  split_ifs at hfault with _ _ hcontains
  exact hcontains (List.contains_iff_mem.mpr hslash)

/-- A name that is accepted is not too long. -/
lemma utf8ByteSize_le_of_validate {name : String} (h : validate name = .ok ()) :
    name.utf8ByteSize ≤ maxBytes := by
  have hfault := fault?_of_validate h
  unfold fault? at hfault
  split_ifs at hfault with _ hlong
  exact Nat.le_of_not_lt hlong

end FieldName

/-- Two byte strings that are equal up to their first slashes agree before and behind them.

**Proof sketch.** Induction on the first of the two parts, which hold no slash. -/
lemma Bytes.append_slash_inj {a b x y : Bytes} (ha : 0x2f ∉ a) (hb : 0x2f ∉ b)
    (h : a ++ 0x2f :: x = b ++ 0x2f :: y) : a = b ∧ x = y := by
  induction a generalizing b with
  | nil =>
    cases b with
    | nil => exact ⟨rfl, by simpa using h⟩
    | cons byte b =>
      have hbyte : (0x2f : UInt8) = byte := by simpa using congrArg List.head? h
      exact absurd (by simp [hbyte]) hb
  | cons byte a ih =>
    cases b with
    | nil =>
      have hbyte : byte = (0x2f : UInt8) := by simpa using congrArg List.head? h
      exact absurd (by simp [hbyte]) ha
    | cons byte' b =>
      simp only [List.cons_append, List.cons.injEq] at h
      obtain ⟨rfl, rfl⟩ :=
        ih (b := b) (fun hm => ha (by simp [hm])) (fun hm => hb (by simp [hm])) h.2
      rw [h.1]
      exact ⟨rfl, rfl⟩

namespace RecordKey

/-- The field of a key. -/
def name : RecordKey → String
  | field name => name
  | graph name => name
  | node name _ => name
  | container name _ => name

/-- The field of the key holds no slash. -/
def IsPlain (key : RecordKey) : Prop :=
  '/' ∉ key.name.toList

/-! ## The four kinds -/

/-- The bytes before the name of a field in the key of its definition. -/
lemma fieldStem_eq :
    fieldStem = [0x76, 0x65, 0x63, 0x2f, 0x66, 0x69, 0x65, 0x6c, 0x64, 0x2f] := by
  decide

/-- The bytes before the name of a field in the key of its header. -/
lemma graphStem_eq :
    Bytes.ofText "vec/graph/" = [0x76, 0x65, 0x63, 0x2f, 0x67, 0x72, 0x61, 0x70, 0x68, 0x2f] := by
  decide

/-- The bytes before the number in the key of a node. -/
lemma nodeStem_eq (name : String) :
    nodeStem name = [0x76, 0x65, 0x63, 0x2f, 0x6e, 0x6f, 0x64, 0x65, 0x2f] ++
      (Bytes.ofText name ++ [0x2f]) := by
  have hkind :
      Bytes.ofText "vec/node/" = [0x76, 0x65, 0x63, 0x2f, 0x6e, 0x6f, 0x64, 0x65, 0x2f] := by
    decide
  have hslash : Bytes.ofText "/" = [0x2f] := by decide
  rw [nodeStem, hkind, hslash, List.append_assoc]

/-- The bytes before the number in the key of a container. -/
lemma containerStem_eq (name : String) :
    containerStem name = [0x76, 0x65, 0x63, 0x2f, 0x63, 0x6f, 0x6e, 0x74, 0x61, 0x69, 0x6e, 0x65,
      0x72, 0x2f] ++ (Bytes.ofText name ++ [0x2f]) := by
  have hkind : Bytes.ofText "vec/container/" = [0x76, 0x65, 0x63, 0x2f, 0x63, 0x6f, 0x6e, 0x74,
      0x61, 0x69, 0x6e, 0x65, 0x72, 0x2f] := by decide
  have hslash : Bytes.ofText "/" = [0x2f] := by decide
  rw [containerStem, hkind, hslash, List.append_assoc]

/-! ## Stems -/

section Stems

variable {key : RecordKey} {name : String} {rest : Bytes}

/-- A key that starts with the stem of the nodes of a field is the key of such a node. -/
lemma eq_node_of_bytes_eq (hkey : key.IsPlain) (hname : '/' ∉ name.toList)
    (h : key.bytes = nodeStem name ++ rest) :
    ∃ id, key = node name id ∧ rest = Bytes.bigEndian 8 id.raw.toNat := by
  cases key with
  | field other => simp [bytes, fieldStem_eq, nodeStem_eq] at h
  | graph other => simp [bytes, graphStem_eq, nodeStem_eq] at h
  | container other page => simp [bytes, containerStem_eq, nodeStem_eq] at h
  | node other id =>
    simp only [bytes, nodeStem_eq, List.append_assoc, List.append_cancel_left_eq,
      List.singleton_append] at h
    obtain ⟨hother, hrest⟩ := Bytes.append_slash_inj (Bytes.slash_notMem_ofText hkey)
      (Bytes.slash_notMem_ofText hname) h
    obtain rfl := Bytes.ofText_injective hother
    exact ⟨id, rfl, hrest.symm⟩

/-- A key that starts with the stem of the containers of a field is the key of such a container. -/
lemma eq_container_of_bytes_eq (hkey : key.IsPlain) (hname : '/' ∉ name.toList)
    (h : key.bytes = containerStem name ++ rest) :
    ∃ page, key = container name page ∧ rest = Bytes.bigEndian 8 page.number.toNat := by
  cases key with
  | field other => simp [bytes, fieldStem_eq, containerStem_eq] at h
  | graph other => simp [bytes, graphStem_eq, containerStem_eq] at h
  | node other id => simp [bytes, containerStem_eq, nodeStem_eq] at h
  | container other page =>
    simp only [bytes, containerStem_eq, List.append_assoc, List.append_cancel_left_eq,
      List.singleton_append] at h
    obtain ⟨hother, hrest⟩ := Bytes.append_slash_inj (Bytes.slash_notMem_ofText hkey)
      (Bytes.slash_notMem_ofText hname) h
    obtain rfl := Bytes.ofText_injective hother
    exact ⟨page, rfl, hrest.symm⟩

/-- The keys under the stem of the nodes of a field are those of its nodes. -/
theorem startsWith_nodeStem_iff (hkey : key.IsPlain) (hname : '/' ∉ name.toList) :
    key.bytes.startsWith (nodeStem name) = true ↔ ∃ id, key = node name id := by
  rw [Bytes.startsWith_iff]
  constructor
  · rintro ⟨rest, h⟩
    obtain ⟨id, hid, _⟩ := eq_node_of_bytes_eq hkey hname h
    exact ⟨id, hid⟩
  · rintro ⟨id, rfl⟩
    exact ⟨_, rfl⟩

/-- The keys under the stem of the containers of a field are those of its containers. -/
theorem startsWith_containerStem_iff (hkey : key.IsPlain) (hname : '/' ∉ name.toList) :
    key.bytes.startsWith (containerStem name) = true ↔ ∃ page, key = container name page := by
  rw [Bytes.startsWith_iff]
  constructor
  · rintro ⟨rest, h⟩
    obtain ⟨page, hpage, _⟩ := eq_container_of_bytes_eq hkey hname h
    exact ⟨page, hpage⟩
  · rintro ⟨page, rfl⟩
    exact ⟨_, rfl⟩

end Stems

/-- The key of a definition is under the stem of the definitions. -/
lemma fieldStem_prefix_field (name : String) : fieldStem <+: (field name).bytes :=
  List.prefix_append _ _

/-- **Only definitions have keys with their stem**, whatever the names of the fields are. -/
theorem not_fieldStem_prefix {record : RecordKey} (h : ∀ name, record ≠ .field name) :
    ¬fieldStem <+: record.bytes := by
  rintro ⟨rest, hrest⟩
  cases record with
  | field name => exact h name rfl
  | graph name => simp [bytes, fieldStem_eq, graphStem_eq] at hrest
  | node name id => simp [bytes, fieldStem_eq, nodeStem_eq] at hrest
  | container name page => simp [bytes, fieldStem_eq, containerStem_eq] at hrest

/-- The keys under the stem of the definitions are those of definitions. -/
theorem startsWith_fieldStem_iff {key : RecordKey} :
    key.bytes.startsWith fieldStem = true ↔ ∃ name, key = field name := by
  rw [Bytes.startsWith_iff_prefix]
  constructor
  · intro h
    by_contra hnone
    exact not_fieldStem_prefix (fun name hname => hnone ⟨name, hname⟩) h
  · rintro ⟨name, rfl⟩
    exact fieldStem_prefix_field name

/-! ## Different records have different keys -/

/-- Different numbers of 64 bits have different bytes. -/
lemma raw_inj_of_bigEndian {a b : UInt64}
    (h : Bytes.bigEndian 8 a.toNat = Bytes.bigEndian 8 b.toNat) : a = b :=
  UInt64.toNat_inj.mp (Bytes.bigEndian_injOn a.toNat_lt b.toNat_lt h)

/-- **Different records have different keys**, as long as the fields hold no slash.

**Proof sketch.** The stem of a key tells the kind of its record, and the field ends at the next
slash. The number behind it has a fixed length. -/
theorem bytes_inj {a b : RecordKey} (ha : a.IsPlain) (hb : b.IsPlain) :
    a.bytes = b.bytes ↔ a = b := by
  refine ⟨fun h => ?_, fun h => h ▸ rfl⟩
  cases b with
  | node name id =>
    obtain ⟨id', hkey, hid⟩ := eq_node_of_bytes_eq ha hb h
    rw [hkey, show id = id' from congrArg VectorId.mk (raw_inj_of_bigEndian hid)]
    rfl
  | container name page =>
    obtain ⟨page', hkey, hpage⟩ := eq_container_of_bytes_eq ha hb h
    rw [hkey, show page = page' from congrArg PageId.mk (raw_inj_of_bigEndian hpage)]
    rfl
  | field name =>
    cases a with
    | field other =>
      simp only [bytes, List.append_cancel_left_eq] at h
      rw [Bytes.ofText_injective h]
    | graph other => simp [bytes, graphStem_eq, fieldStem_eq] at h
    | node other id => simp [bytes, nodeStem_eq, fieldStem_eq] at h
    | container other page => simp [bytes, containerStem_eq, fieldStem_eq] at h
  | graph name =>
    cases a with
    | field other => simp [bytes, graphStem_eq, fieldStem_eq] at h
    | graph other =>
      simp only [bytes, List.append_cancel_left_eq] at h
      rw [Bytes.ofText_injective h]
    | node other id => simp [bytes, nodeStem_eq, graphStem_eq] at h
    | container other page => simp [bytes, containerStem_eq, graphStem_eq] at h

/-- Different records of one field have different keys. -/
lemma bytes_ne_of_ne {name : String} (hplain : '/' ∉ name.toList) {a b : RecordKey}
    (ha : a.name = name) (hb : b.name = name) (hne : a ≠ b) : a.bytes ≠ b.bytes := by
  intro heq
  refine hne ((bytes_inj ?_ ?_).mp heq)
  · rwa [IsPlain, ha]
  · rwa [IsPlain, hb]

/-! ## The number at the end of a key -/

/-- The number at the end of a key is read back. -/
lemma number?_bigEndian (raw : UInt64) :
    number? (Bytes.bigEndian 8 raw.toNat) = some raw := by
  rw [number?, if_pos (Bytes.length_bigEndian 8 _), Bytes.ofBigEndian_bigEndian raw.toNat_lt,
    UInt64.ofNat_toNat]

/-- Only the bytes of a number are read as it. -/
lemma eq_bigEndian_of_number? {part : Bytes} {raw : UInt64} (h : number? part = some raw) :
    part = Bytes.bigEndian 8 raw.toNat := by
  unfold number? at h
  split_ifs at h with hlen
  have hlt := Bytes.ofBigEndian_lt part
  rw [hlen] at hlt
  rw [← Option.some.inj h, UInt64.toNat_ofNat_of_lt' hlt, ← hlen, Bytes.bigEndian_ofBigEndian]

/-- A key ends in a number behind a stem exactly if it is the stem with that number written
behind it. -/
theorem bind_number?_eq_some_iff {stem key : Bytes} {raw : UInt64} :
    (Bytes.after? stem key).bind number? = some raw ↔
      key = stem ++ Bytes.bigEndian 8 raw.toNat := by
  rw [Option.bind_eq_some_iff]
  constructor
  · rintro ⟨part, hpart, hraw⟩
    rw [Bytes.after?_eq_some_iff.mp hpart, eq_bigEndian_of_number? hraw]
  · rintro rfl
    exact ⟨_, Bytes.after?_append _ _, number?_bigEndian raw⟩

/-! ## The order of keys -/

/-- The containers of a field have their keys in the order of their pages. -/
theorem compare_container_bytes (name : String) (page later : PageId) :
    compare (container name page).bytes (container name later).bytes =
      compare page.number.toNat later.number.toNat := by
  rw [bytes, bytes, Bytes.compare_append_left,
    Bytes.compare_bigEndian 8 page.number.toNat_lt later.number.toNat_lt]

/-- The nodes of a field have their keys in the order of their names. -/
theorem compare_node_bytes (name : String) (id later : VectorId) :
    compare (node name id).bytes (node name later).bytes =
      compare id.raw.toNat later.raw.toNat := by
  rw [bytes, bytes, Bytes.compare_append_left,
    Bytes.compare_bigEndian 8 id.raw.toNat_lt later.raw.toNat_lt]

/-! ## The layout of the key space -/

/-- The key belongs to a field with a valid name. -/
def IsValid (key : RecordKey) : Prop :=
  FieldName.validate key.name = .ok ()

/-- A valid key has a plain name. -/
lemma IsValid.isPlain {key : RecordKey} (h : key.IsValid) : key.IsPlain :=
  FieldName.slash_notMem_of_validate h

/-- **The layout of the key space**, for all records of fields with valid names, all vectors and all
pages: different records have different keys, the keys with a stem are those that the stem is for,
and the numbered keys of one field come in the order of their numbers. -/
theorem keys_laid_out :
    (∀ key other : RecordKey, key.IsValid → other.IsValid → key.bytes = other.bytes →
      key = other) ∧
    (∀ (key : RecordKey) (owner : String), key.IsValid → FieldName.validate owner = .ok () →
      (key.bytes.startsWith (containerStem owner) = true ↔ ∃ page, key = container owner page) ∧
      (key.bytes.startsWith (nodeStem owner) = true ↔ ∃ id, key = node owner id)) ∧
    (∀ key : RecordKey, key.IsValid →
      (key.bytes.startsWith fieldStem = true ↔ ∃ name, key = field name)) ∧
    (∀ (name : String) (page later : PageId),
      compare (container name page).bytes (container name later).bytes =
        compare page.number.toNat later.number.toNat) ∧
    (∀ (name : String) (id later : VectorId),
      compare (node name id).bytes (node name later).bytes =
        compare id.raw.toNat later.raw.toNat) := by
  refine ⟨fun key other hkey hother => (bytes_inj hkey.isPlain hother.isPlain).mp,
    fun key owner hkey howner => ⟨?_, ?_⟩, fun key _ => startsWith_fieldStem_iff,
    compare_container_bytes, compare_node_bytes⟩
  · exact startsWith_containerStem_iff hkey.isPlain (FieldName.slash_notMem_of_validate howner)
  · exact startsWith_nodeStem_iff hkey.isPlain (FieldName.slash_notMem_of_validate howner)

/-- Two fields of which one has a name that begins like the other, and a container with a slash in
every byte of its page. -/
theorem keys_laid_out_emb :
    FieldName.validate "emb" = .ok () ∧ FieldName.validate "emb2" = .ok () ∧
      (container "emb" ⟨0x2f2f2f2f2f2f2f2f⟩).bytes ≠ (container "emb2" ⟨0x2f2f2f2f2f2f2f2f⟩).bytes ∧
      (container "emb2" ⟨0x2f2f2f2f2f2f2f2f⟩).bytes.startsWith (containerStem "emb") = false ∧
      (container "emb" ⟨0x2f2f2f2f2f2f2f2f⟩).bytes.startsWith (containerStem "emb") = true ∧
      (container "emb" ⟨0x2f2f2f2f2f2f2f2f⟩).bytes.startsWith fieldStem = false ∧
      compare (node "emb" ⟨2⟩).bytes (node "emb" ⟨256⟩).bytes = .lt := by
  have hshort : FieldName.validate "emb" = .ok () := by decide
  have hlong : FieldName.validate "emb2" = .ok () := by decide
  obtain ⟨hinjective, hstems, hfield, _, hnodes⟩ := keys_laid_out
  refine ⟨hshort, hlong, fun h => ?_, ?_, ?_, ?_, hnodes "emb" ⟨2⟩ ⟨256⟩⟩
  · simpa using hinjective (container "emb" _) (container "emb2" _) hshort hlong h
  · rw [← Bool.not_eq_true, (hstems (container "emb2" _) "emb" hlong hshort).1]
    simp
  · exact (hstems (container "emb" _) "emb" hshort hshort).1.mpr ⟨_, rfl⟩
  · rw [← Bool.not_eq_true, hfield (container "emb" _) hshort]
    simp

end RecordKey

end Proximity

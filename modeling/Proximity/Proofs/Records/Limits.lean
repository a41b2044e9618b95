import Proximity.Proofs.Records

set_option relaxedAutoImplicit false
set_option autoImplicit false

/-!
# What records can be stored

A length is read from at most four bytes and a number is checked against its machine type, so
whatever bytes a record is read from, its numbers and lengths are within the limits of the format.
A record beyond them is therefore never read back as it was written, and the limits say exactly
which records survive.

## Main definitions

* `Proximity.MessagePack.Item.Bounded` — an item whose texts, byte strings and lists have lengths
  that the format can hold, at every depth.

## Main results

* `Proximity.MessagePack.Item.bounded_of_read` — every item that is read is bounded.
* `Proximity.ContainerRecord.fits_of_decode`, `Proximity.NodeRecord.fits_of_decode`,
  `Proximity.GraphHeader.fits_of_decode`, `Proximity.FieldRecord.fits_of_decode` — every record that
  is read fits.
* `Proximity.stored_iff_fits` — the records that survive are those that fit.
* `Proximity.not_forall_stored` — not all of them do.
-/

namespace Proximity

open MessagePack

namespace Bytes

/-- The bytes that are split off are as many as were asked for. -/
lemma length_of_split? {length : Nat} {bytes first rest : Bytes}
    (h : split? length bytes = some (first, rest)) : first.length = length := by
  induction length generalizing bytes first with
  | zero =>
    obtain ⟨rfl, -⟩ : [] = first ∧ bytes = rest := by simpa [split?] using h
    rfl
  | succ length ih =>
    cases bytes with
    | nil => simp [split?] at h
    | cons byte bytes =>
      obtain ⟨others, hothers, rfl⟩ : ∃ others,
          split? length bytes = some (others, rest) ∧ byte :: others = first := by
        simpa [split?, Option.bind_eq_some_iff] using h
      rw [List.length_cons, ih hothers]

/-- A text has as many bytes as it was read from. -/
lemma utf8ByteSize_of_toText? {bytes : Bytes} {text : String} (h : toText? bytes = some text) :
    text.utf8ByteSize = bytes.length := by
  unfold toText? String.fromUTF8? at h
  split_ifs at h with hvalid
  obtain rfl := Option.some.inj h
  rfl

end Bytes

namespace MessagePack

/-! ## Items -/

/-- An item whose texts, byte strings and lists have lengths that the format can hold, and so have
the items in it. -/
inductive Item.Bounded : Item → Prop
  | nil : Bounded .nil
  | bool (value : Bool) : Bounded (.bool value)
  | unsigned (value : Nat) : Bounded (.unsigned value)
  | signed (value : Int) : Bounded (.signed value)
  | float32 (bits : UInt32) : Bounded (.float32 bits)
  | float64 (bits : UInt64) : Bounded (.float64 bits)
  | str {bytes : Bytes} (h : bytes.length < 2 ^ 32) : Bounded (.str bytes)
  | bin {bytes : Bytes} (h : bytes.length < 2 ^ 32) : Bounded (.bin bytes)
  | array {items : List Item} (hlen : items.length < 2 ^ 32)
      (h : ∀ item ∈ items, Bounded item) : Bounded (.array items)
  | map {items : List Item} (h : ∀ item ∈ items, Bounded item) : Bounded (.map items)
  | ext (kind : UInt8) (payload : Bytes) : Bounded (.ext kind payload)

section Reading

variable {bytes rest : Bytes} {item : Item}

/-- So many bytes stand for a number in their range. -/
lemma lt_of_readNat {width n : Nat} (h : readNat width bytes = some (n, rest)) :
    n < 256 ^ width := by
  obtain ⟨digits, hdigits, rfl⟩ : ∃ digits,
      Bytes.split? width bytes = some (digits, rest) ∧ Bytes.ofBigEndian digits = n := by
    simpa [readNat, Option.bind_eq_some_iff] using h
  rw [← Bytes.length_of_split? hdigits]
  exact Bytes.ofBigEndian_lt digits

/-- A block behind its length is shorter than the range of the length. -/
lemma length_lt_of_readBlock {width : Nat} {block : Bytes} (hwidth : width ≤ 4)
    (h : readBlock width bytes = some (block, rest)) : block.length < 2 ^ 32 := by
  obtain ⟨length, behind, hlength, hblock⟩ : ∃ length behind,
      readNat width bytes = some (length, behind) ∧
        Bytes.split? length behind = some (block, rest) := by
    simpa [readBlock, Option.bind_eq_some_iff] using h
  calc block.length = length := Bytes.length_of_split? hblock
    _ < 256 ^ width := lt_of_readNat hlength
    _ ≤ 256 ^ 4 := Nat.pow_le_pow_right (by decide) hwidth

/-- A marker that nests nothing gives no number, text or byte string beyond the format.

**Proof sketch.** One case for each marker; the length that it gives is in at most four bytes. -/
lemma bounded_of_readPlain {marker : Nat} (h : readPlain marker bytes = some (item, rest)) :
    item.Bounded := by
  unfold readPlain at h
  split_ifs at h with h1 h2 h3
  · obtain ⟨rfl, -⟩ : Item.unsigned marker = item ∧ _ := by simpa using h
    exact .unsigned marker
  · obtain ⟨rfl, -⟩ : Item.signed _ = item ∧ _ := by simpa using h
    exact .signed _
  · obtain ⟨text, htext, rfl⟩ : ∃ text,
        Bytes.split? (marker - 0xa0) bytes = some (text, rest) ∧ Item.str text = item := by
      simpa [Option.bind_eq_some_iff] using h
    have hlen := Bytes.length_of_split? htext
    exact .str (by omega)
  · split at h
    all_goals
      simp only [Option.bind_eq_bind, Option.bind_eq_some_iff, Option.pure_def, Option.some.injEq,
        Prod.mk.injEq, Prod.exists, reduceCtorEq] at h
    case h_1 | h_2 | h_3 =>
      obtain ⟨rfl, -⟩ := h
      constructor
    case h_4 | h_5 | h_6 =>
      obtain ⟨block, behind, hblock, rfl, -⟩ := h
      exact .bin (length_lt_of_readBlock (by decide) hblock)
    case h_17 | h_18 | h_19 =>
      obtain ⟨block, behind, hblock, rfl, -⟩ := h
      exact .str (length_lt_of_readBlock (by decide) hblock)
    all_goals
      obtain ⟨n, behind, -, rfl, -⟩ := h
      constructor

/-- A list of as many items as a count says, all of them bounded. -/
lemma bounded_of_readMany {read : Bytes → Option (Item × Bytes)} {count : Nat}
    {items : List Item}
    (hread : ∀ {bytes rest : Bytes} {item : Item}, read bytes = some (item, rest) → item.Bounded)
    (h : readMany read count bytes = some (items, rest)) :
    items.length = count ∧ ∀ item ∈ items, item.Bounded := by
  induction count generalizing bytes items with
  | zero =>
    obtain ⟨rfl, -⟩ : [] = items ∧ bytes = rest := by simpa [readMany] using h
    simp
  | succ count ih =>
    obtain ⟨first, behind, hfirst, others, hothers, rfl⟩ : ∃ first behind,
        read bytes = some (first, behind) ∧ ∃ others,
          readMany read count behind = some (others, rest) ∧ first :: others = items := by
      simpa [readMany, Option.bind_eq_some_iff] using h
    obtain ⟨hlen, hall⟩ := ih hothers
    exact ⟨by rw [List.length_cons, hlen], List.forall_mem_cons.mpr ⟨hread hfirst, hall⟩⟩

/-- A list that is read is within the limits if its items are. -/
lemma bounded_of_readArray {read : Bytes → Option (Item × Bytes)} {count : Nat}
    (hcount : count < 2 ^ 32)
    (hread : ∀ {bytes rest : Bytes} {item : Item}, read bytes = some (item, rest) → item.Bounded)
    (h : readArray read count bytes = some (item, rest)) : item.Bounded := by
  obtain ⟨items, hitems, rfl⟩ : ∃ items,
      readMany read count bytes = some (items, rest) ∧ Item.array items = item := by
    simpa [readArray, Option.bind_eq_some_iff] using h
  obtain ⟨hlen, hall⟩ := bounded_of_readMany hread hitems
  exact .array (hlen ▸ hcount) hall

/-- A map that is read is within the limits if its items are. -/
lemma bounded_of_readMap {read : Bytes → Option (Item × Bytes)} {count : Nat}
    (hread : ∀ {bytes rest : Bytes} {item : Item}, read bytes = some (item, rest) → item.Bounded)
    (h : readMap read count bytes = some (item, rest)) : item.Bounded := by
  obtain ⟨items, hitems, rfl⟩ : ∃ items,
      readMany read (2 * count) bytes = some (items, rest) ∧ Item.map items = item := by
    simpa [readMap, Option.bind_eq_some_iff] using h
  exact .map (bounded_of_readMany hread hitems).2

/-- An extension that is read is within the limits. -/
lemma bounded_of_readExt {length : Nat} (h : readExt length bytes = some (item, rest)) :
    item.Bounded := by
  cases bytes with
  | nil => simp [readExt] at h
  | cons kind bytes =>
    obtain ⟨payload, -, rfl⟩ : ∃ payload,
        Bytes.split? length bytes = some (payload, rest) ∧ Item.ext kind payload = item := by
      simpa [readExt, Option.bind_eq_some_iff] using h
    exact .ext kind payload

/-- A marker that nests others gives a bounded item, if those are.

**Proof sketch.** One case for each marker. An array or a map has bounded items, and as many as can
be counted in four bytes. -/
lemma bounded_of_readNesting {read : Bytes → Option (Item × Bytes)} {marker : Nat}
    (hread : ∀ {bytes rest : Bytes} {item : Item}, read bytes = some (item, rest) → item.Bounded)
    (h : readNesting read marker bytes = some (item, rest)) : item.Bounded := by
  unfold readNesting at h
  split_ifs at h with h1 h2
  · exact bounded_of_readMap hread h
  · exact bounded_of_readArray (by omega) hread h
  · split at h
    case h_4 | h_5 | h_6 | h_7 | h_8 => exact bounded_of_readExt h
    all_goals
      simp only [Option.bind_eq_bind, Option.bind_eq_some_iff, Prod.exists, reduceCtorEq] at h
    case h_1 | h_2 | h_3 =>
      obtain ⟨length, behind, -, hext⟩ := h
      exact bounded_of_readExt hext
    case h_9 | h_10 =>
      obtain ⟨count, behind, hcount, harray⟩ := h
      have hlt := lt_of_readNat hcount
      exact bounded_of_readArray (by omega) hread harray
    case h_11 | h_12 =>
      obtain ⟨count, behind, -, hmap⟩ := h
      exact bounded_of_readMap hread hmap

/-- **Every item that is read is bounded**, whatever bytes it is read from.

**Proof sketch.** Induction on the depth: a list or a map hands the depth below it to its items, and
its own count comes from at most four bytes. -/
theorem Item.bounded_of_read {depth : Nat} (h : Item.read depth bytes = some (item, rest)) :
    item.Bounded := by
  induction depth generalizing bytes item rest with
  | zero =>
    cases bytes with
    | nil => simp [Item.read] at h
    | cons marker bytes =>
      rw [Item.read] at h
      split_ifs at h
      exact bounded_of_readPlain h
  | succ depth ih =>
    cases bytes with
    | nil => simp [Item.read] at h
    | cons marker bytes =>
      rw [Item.read] at h
      split_ifs at h
      · exact bounded_of_readNesting ih h
      · exact bounded_of_readPlain h

end Reading

/-! ## Parts of records -/

namespace Item

variable {α : Type} {item : Item}

/-- A number that is read is within its range. -/
lemma lt_of_nat? {bound n : Nat} (h : item.nat? bound = some n) : n < bound := by
  cases item with
  | unsigned value =>
    obtain ⟨hlt, rfl⟩ : value < bound ∧ value = n := by simpa [nat?] using h
    exact hlt
  | signed value =>
    obtain ⟨⟨hnonneg, hlt⟩, rfl⟩ : (0 ≤ value ∧ value < bound) ∧ value.toNat = n := by
      simpa [nat?] using h
    omega
  | _ => simp [nat?] at h

/-- A text that is read is shorter than `2 ^ 32` bytes. -/
lemma utf8ByteSize_lt_of_text? {text : String} (hitem : item.Bounded)
    (h : item.text? = some text) : text.utf8ByteSize < 2 ^ 32 := by
  obtain ⟨bytes, hbytes, htext⟩ := Option.bind_eq_some_iff.mp h
  rw [Bytes.utf8ByteSize_of_toText? htext]
  cases hitem with
  | str hlen => exact Option.some.inj hbytes ▸ hlen
  | bin hlen => exact Option.some.inj hbytes ▸ hlen
  | _ => simp [bytes?] at hbytes

/-- Reading the items of a list gives a value for each of them.

**Proof sketch.** Induction on the items. -/
lemma length_and_mem_of_mapM {β : Type} {value? : β → Option α} {items : List β}
    {list : List α} (h : items.mapM value? = some list) :
    list.length = items.length ∧ ∀ a ∈ list, ∃ item ∈ items, value? item = some a := by
  induction items generalizing list with
  | nil =>
    obtain rfl : [] = list := by simpa using h
    simp
  | cons item items ih =>
    obtain ⟨a, ha, others, hothers, rfl⟩ : ∃ a, value? item = some a ∧ ∃ others,
        items.mapM value? = some others ∧ a :: others = list := by
      simpa [List.mapM_cons, Option.bind_eq_some_iff] using h
    obtain ⟨hlen, hmem⟩ := ih hothers
    refine ⟨by rw [List.length_cons, List.length_cons, hlen], fun b hb => ?_⟩
    rcases List.mem_cons.mp hb with rfl | hb
    · exact ⟨item, List.mem_cons_self, ha⟩
    · obtain ⟨other, hother, hvalue⟩ := hmem b hb
      exact ⟨other, List.mem_cons_of_mem _ hother, hvalue⟩

/-- A list that is read has fewer than `2 ^ 32` members. -/
lemma length_lt_of_list? {value? : Item → Option α} {list : List α} (hitem : item.Bounded)
    (h : item.list? value? = some list) : list.length < 2 ^ 32 := by
  cases hitem with
  | array hlen _ => exact (length_and_mem_of_mapM h).1 ▸ hlen
  | @bin bytes _ =>
    cases bytes with
    | nil =>
      obtain rfl : [] = list := by simpa [list?] using h
      exact Nat.two_pow_pos 32
    | cons => simp [list?] at h
  | _ => simp [list?] at h

/-- Every value of a list comes from a bounded item. -/
lemma exists_of_mem_list? {value? : Item → Option α} {list : List α} (hitem : item.Bounded)
    (h : item.list? value? = some list) {a : α} (ha : a ∈ list) :
    ∃ part : Item, part.Bounded ∧ value? part = some a := by
  cases hitem with
  | @array items _ hall =>
    obtain ⟨part, hpart, hvalue⟩ := (length_and_mem_of_mapM h).2 a ha
    exact ⟨part, hall part hpart, hvalue⟩
  | @bin bytes _ =>
    cases bytes with
    | nil =>
      obtain rfl : [] = list := by simpa [list?] using h
      simp at ha
    | cons => simp [list?] at h
  | _ => simp [list?] at h

/-- A list of numbers that is read has fewer than `2 ^ 32` members. -/
lemma length_lt_of_numbers? {value? : Item → Option α} {list : List α} (hitem : item.Bounded)
    (h : item.numbers? value? = some list) : list.length < 2 ^ 32 := by
  cases hitem with
  | bin hlen => exact (length_and_mem_of_mapM h).1 ▸ hlen
  | array hlen hall => exact length_lt_of_list? (.array hlen hall) h
  | _ => simp [numbers?, list?] at h

/-- The fields of a map are values of it or were found before.

**Proof sketch.** Induction along the fields. A value is a part of the map, and it takes the place
of what was found before. -/
lemma bounded_of_mapFields? {names : List String} {found fields : List (Option Item)}
    {items : List Item} (hfound : ∀ part, some part ∈ found → part.Bounded)
    (hitems : ∀ part ∈ items, part.Bounded) (h : mapFields? names found items = some fields) :
    ∀ part, some part ∈ fields → part.Bounded := by
  fun_induction mapFields? names found items with
  | case1 =>
    obtain rfl := Option.some.inj h
    exact hfound
  | case2 => cases h
  | case3 found key value rest ih_unknown ih_known =>
    obtain ⟨-, hvalue, hrest⟩ : key.Bounded ∧ value.Bounded ∧ ∀ part ∈ rest, part.Bounded := by
      simpa using hitems
    obtain ⟨place, -, hplace⟩ := Option.bind_eq_some_iff.mp h
    cases place with
    | none => exact ih_unknown hfound hrest hplace
    | some place =>
      dsimp only at hplace
      split_ifs at hplace
      refine ih_known place (fun part hpart => ?_) hrest hplace
      rcases List.mem_or_eq_of_mem_set hpart with hmem | heq
      · exact hfound part hmem
      · exact Option.some.inj heq ▸ hvalue

/-- The fields of a bounded item are bounded. -/
lemma bounded_of_fields? {names : List String} {fields : List (Option Item)}
    (hitem : item.Bounded) (h : item.fields? names = some fields) :
    ∀ part, some part ∈ fields → part.Bounded := by
  cases hitem with
  | @array items _ hall =>
    obtain ⟨-, rfl⟩ : items.length = names.length ∧ items.map some = fields := by
      simpa [fields?] using h
    simpa using hall
  | map hall => exact bounded_of_mapFields? (by simp) hall h
  | _ => simp [fields?] at h

/-- The value of a field comes from a bounded item. -/
lemma exists_of_required? {value? : Item → Option α} {fields : List (Option Item)}
    (hfields : ∀ part, some part ∈ fields → part.Bounded) {field : Option Item}
    (hfield : field ∈ fields) {a : α} (h : required? value? field = some a) :
    ∃ part : Item, part.Bounded ∧ value? part = some a := by
  obtain ⟨part, rfl, hvalue⟩ := Option.bind_eq_some_iff.mp h
  exact ⟨part, hfields part hfield, hvalue⟩

end Item

/-- What is read as a record is a bounded item that holds the record. -/
lemma exists_of_decode {α : Type} [Storable α] {bytes : Bytes} {record : α}
    (h : decode bytes = .ok record) :
    ∃ item : Item, item.Bounded ∧ Storable.ofItem? item = some record := by
  unfold decode at h
  split at h
  · rename_i found hfound
    obtain rfl : found = record := by simpa using h
    obtain ⟨⟨item, rest⟩, hitem, hrecord⟩ := Option.bind_eq_some_iff.mp hfound
    exact ⟨item, Item.bounded_of_read hitem, hrecord⟩
  · cases h

end MessagePack

/-! ## Records -/

/-- A container record that is read back is within the limits. -/
lemma ContainerRecord.fits_of_decode {bytes : Bytes} {record : ContainerRecord}
    (h : decode bytes = .ok record) : record.Fits := by
  obtain ⟨item, hitem, hrecord⟩ := exists_of_decode h
  obtain ⟨fields, hfields, hrecord⟩ := Option.bind_eq_some_iff.mp hrecord
  have hbounded := Item.bounded_of_fields? hitem hfields
  split at hrecord
  · rename_i ids
    obtain ⟨list, hlist, rfl⟩ : ∃ list,
        Item.required? (Item.numbers? VectorId.ofItem?) ids = some list ∧
          ContainerRecord.mk list = record := by
      simpa [Option.bind_eq_some_iff] using hrecord
    obtain ⟨part, hpart, hvalue⟩ := Item.exists_of_required? hbounded (by simp) hlist
    exact Item.length_lt_of_numbers? hpart hvalue
  · cases hrecord

/-- A node that is read back is within the limits.

**Proof sketch.** Each part of the record comes from a bounded item. -/
lemma NodeRecord.fits_of_decode {bytes : Bytes} {node : NodeRecord}
    (h : decode bytes = .ok node) : node.Fits := by
  obtain ⟨item, hitem, hrecord⟩ := exists_of_decode h
  obtain ⟨fields, hfields, hrecord⟩ := Option.bind_eq_some_iff.mp hrecord
  have hbounded := Item.bounded_of_fields? hitem hfields
  split at hrecord
  · simp only [Option.bind_eq_bind, Option.bind_eq_some_iff, Option.pure_def,
      Option.some.injEq] at hrecord
    obtain ⟨level, hlevel, location, -, neighbors, hneighbors, parents, hparents, rfl⟩ := hrecord
    obtain ⟨levelPart, -, hlevel⟩ := Item.exists_of_required? hbounded (by simp) hlevel
    obtain ⟨layersPart, hlayers, hneighbors⟩ :=
      Item.exists_of_required? hbounded (by simp) hneighbors
    obtain ⟨parentsPart, hparent, hparents⟩ := Item.exists_of_required? hbounded (by simp) hparents
    exact
      { level := Item.lt_of_nat? hlevel
        layers := Item.length_lt_of_list? hlayers hneighbors
        lists := fun list hlist => by
          obtain ⟨part, hpart, hvalue⟩ := Item.exists_of_mem_list? hlayers hneighbors hlist
          exact Item.length_lt_of_numbers? hpart hvalue
        parents := Item.length_lt_of_list? hparent hparents }
  · cases hrecord

/-- A graph header that is read back is within the limits.

**Proof sketch.** Each part of the record comes from a bounded item. -/
lemma GraphHeader.fits_of_decode {bytes : Bytes} {header : GraphHeader}
    (h : decode bytes = .ok header) : header.Fits := by
  obtain ⟨item, hitem, hrecord⟩ := exists_of_decode h
  obtain ⟨fields, hfields, hrecord⟩ := Option.bind_eq_some_iff.mp hrecord
  have hbounded := Item.bounded_of_fields? hitem hfields
  split at hrecord
  · simp only [Option.bind_eq_bind, Option.bind_eq_some_iff, Option.pure_def,
      Option.some.injEq] at hrecord
    obtain ⟨entry, -, level, hlevel, count, hcount, raw, hraw, stored, hstored, page, -, rfl⟩ :=
      hrecord
    obtain ⟨_, -, hlevel⟩ := Item.exists_of_required? hbounded (by simp) hlevel
    obtain ⟨_, -, hcount⟩ := Item.exists_of_required? hbounded (by simp) hcount
    obtain ⟨_, -, hraw⟩ := Item.exists_of_required? hbounded (by simp) hraw
    obtain ⟨_, -, hstored⟩ := Item.exists_of_required? hbounded (by simp) hstored
    exact ⟨Item.lt_of_nat? hlevel, Item.lt_of_nat? hcount, Item.lt_of_nat? hraw,
      Item.lt_of_nat? hstored⟩
  · cases hrecord

/-- Options that are read back are within the limits. -/
lemma FieldOptions.fits_of_ofItem? {item : Item} {options : FieldOptions} (hitem : item.Bounded)
    (h : ofItem? item = some options) : options.Fits := by
  obtain ⟨fields, hfields, hrecord⟩ := Option.bind_eq_some_iff.mp h
  have hbounded := Item.bounded_of_fields? hitem hfields
  split at hrecord
  · simp only [Option.bind_eq_bind, Option.bind_eq_some_iff, Option.pure_def,
      Option.some.injEq] at hrecord
    obtain ⟨edges, hedges, candidates, hcandidates, source, -, destination, -, metric, -, bytes,
      hbytes, rfl⟩ := hrecord
    obtain ⟨_, -, hedges⟩ := Item.exists_of_required? hbounded (by simp) hedges
    obtain ⟨_, -, hcandidates⟩ := Item.exists_of_required? hbounded (by simp) hcandidates
    obtain ⟨_, -, hbytes⟩ := Item.exists_of_required? hbounded (by simp) hbytes
    exact ⟨Item.lt_of_nat? hedges, Item.lt_of_nat? hcandidates, Item.lt_of_nat? hbytes⟩
  · cases hrecord

/-- A field definition that is read back is within the limits. -/
theorem FieldRecord.fits_of_decode {bytes : Bytes} {record : FieldRecord}
    (h : decode bytes = .ok record) : record.Fits := by
  obtain ⟨item, hitem, hrecord⟩ := exists_of_decode h
  obtain ⟨fields, hfields, hrecord⟩ := Option.bind_eq_some_iff.mp hrecord
  have hbounded := Item.bounded_of_fields? hitem hfields
  split at hrecord
  · simp only [Option.bind_eq_bind, Option.bind_eq_some_iff, Option.pure_def,
      Option.some.injEq] at hrecord
    obtain ⟨name, hname, options, hoptions, version, hversion, rfl⟩ := hrecord
    obtain ⟨_, hpart, hname⟩ := Item.exists_of_required? hbounded (by simp) hname
    obtain ⟨_, hchoices, hoptions⟩ := Item.exists_of_required? hbounded (by simp) hoptions
    obtain ⟨_, -, hversion⟩ := Item.exists_of_required? hbounded (by simp) hversion
    exact ⟨Item.utf8ByteSize_lt_of_text? hpart hname,
      FieldOptions.fits_of_ofItem? hchoices hoptions, Item.lt_of_nat? hversion⟩
  · cases hrecord

/-- **The records that survive are those that fit.** A field definition, graph header, node or
container record is read back from its stored form if and only if its numbers and lengths are within
what the format can hold: no field, whether empty, absent or at the end of its range, is lost or
changed by the form it takes, and nothing beyond the limits is read back as if it had been
stored. -/
theorem stored_iff_fits :
    (∀ record : FieldRecord, decode (encode record) = .ok record ↔ record.Fits) ∧
      (∀ header : GraphHeader, decode (encode header) = .ok header ↔ header.Fits) ∧
      (∀ node : NodeRecord, decode (encode node) = .ok node ↔ node.Fits) ∧
      ∀ record : ContainerRecord, decode (encode record) = .ok record ↔ record.Fits :=
  ⟨fun _ => ⟨FieldRecord.fits_of_decode, FieldRecord.decode_encode⟩,
    fun _ => ⟨GraphHeader.fits_of_decode, GraphHeader.decode_encode⟩,
    fun _ => ⟨NodeRecord.fits_of_decode, NodeRecord.decode_encode⟩,
    fun _ => ⟨ContainerRecord.fits_of_decode, ContainerRecord.decode_encode⟩⟩

/-- A text of so many letters takes so many bytes. -/
lemma utf8ByteSize_replicate (count : Nat) :
    (String.ofList (List.replicate count 'a')).utf8ByteSize = count := by
  induction count with
  | zero => rfl
  | succ count ih =>
    have hletter : (String.ofList ['a']).utf8ByteSize = 1 := by decide
    rw [List.replicate_succ, ← List.singleton_append, String.ofList_append,
      String.utf8ByteSize_append, ih, hletter, Nat.add_comm]

/-- **Not every record survives**: the length of a name is written in at most four bytes, so that a
definition whose name has `2 ^ 32` letters is not read back, although all its numbers fit.

**Proof sketch.** What is read back has a name of fewer than `2 ^ 32` bytes. -/
theorem not_forall_stored : ¬∀ record : FieldRecord, record.options.Fits →
    record.createdVersion < UInt64.size → decode (encode record) = .ok record := by
  intro hall
  obtain ⟨count, hcount⟩ : ∃ count, count = 2 ^ 32 := ⟨_, rfl⟩
  have hoptions : (FieldOptions.ofShape 2 1).Fits := ⟨by decide, by decide, by decide⟩
  have hversion : 0 < UInt64.size := by decide
  have hfits := FieldRecord.fits_of_decode
    (hall ⟨String.ofList (List.replicate count 'a'), .ofShape 2 1, 0⟩ hoptions hversion)
  have hname := hfits.name
  rw [utf8ByteSize_replicate, hcount] at hname
  exact absurd hname (Nat.lt_irrefl _)

end Proximity

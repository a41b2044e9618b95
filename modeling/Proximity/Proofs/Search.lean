import Proximity.Proofs.Graph.Ordering
import Proximity.Proofs.Store.Fields

set_option relaxedAutoImplicit false
set_option autoImplicit false

/-!
# Searches

Both searches are measured against one definition: the candidates of all vectors that a field has
accepted, in ascending order, cut off after some number of them. The exact search reads the vectors
from the containers, of which a scan of the key space finds every one, in the order in which the
vectors were accepted. The search in the graph finds as many candidates as its beam is wide, and if
the beam is wide enough then it finds all of them.

The exact search asks for room for all the candidates that it has been told to keep, however few
vectors there are, and breaks down if so much room cannot be asked for.

## Main definitions

* `Proximity.FieldRecord.Accepts` — a query that a field accepts, and its stored form.
* `Proximity.Accepted.candidate` — a vector with its distance to a query.
* `Proximity.Search.nearest` — the definition of the nearest vectors.
* `Proximity.Search.HasRoom` — there is room for them.

## Main results

* `Proximity.ResultStream.drain_ofResults` — a stream hands out all its results in order.
* `Proximity.Snapshot.Sound.exists_scan` — a scan gives the vectors that a field has accepted.
* `Proximity.Snapshot.Sound.exactIn_eq` — the exact search asks for room and follows the definition.
* `Proximity.Snapshot.Sound.exists_search` — what the search in the graph finds.
* `Proximity.Snapshot.Sound.exists_approximateIn` — the approximate search answers it.
* `Proximity.Snapshot.Sound.exactIn_cases`, `Proximity.Snapshot.Sound.approximateIn_cases` — the
  only fault that a search finds is one of the query.
-/

namespace Proximity

/-! ## Handing out results -/

namespace ResultStream

/-- What a portion leaves. -/
lemma pending_fill_rooms (stream : ResultStream) (idRoom distanceRoom : Nat) :
    (stream.fill idRoom distanceRoom).2.pending =
      stream.pending.drop (min idRoom distanceRoom) := by
  simp only [fill, pending, List.length_take, List.drop_drop]
  generalize min idRoom distanceRoom = room
  rcases Nat.le_total room (stream.results.drop stream.handedOut).length with hle | hle
  · rw [Nat.min_eq_left hle]
  · rw [Nat.min_eq_right hle]
    simp only [List.length_drop] at hle ⊢
    rw [List.drop_eq_nil_of_le (by omega), List.drop_eq_nil_of_le (by omega)]

/-- What a portion hands out no longer comes. -/
lemma pending_fill (stream : ResultStream) (room : Nat) :
    (stream.fill room room).2.pending = stream.pending.drop room := by
  rw [pending_fill_rooms, Nat.min_self]

/-- **Portions hand out everything that is left**, whatever their size.

**Proof sketch.** Induction along the portions: each takes the beginning of what is left, and an
empty one finds nothing left. -/
theorem drain_eq_pending {room : Nat} (hroom : 0 < room) (stream : ResultStream) :
    (stream.drain room).1 = stream.pending := by
  fun_induction drain room stream with
  | case1 stream portion hempty =>
    have htake : stream.pending.take room = [] := by simpa [portion, fill] using hempty
    rcases List.take_eq_nil_iff.mp htake with hzero | hnil
    · omega
    · rw [hempty, hnil]
  | case2 stream portion _ rest ih =>
    have hportion : portion.1 = stream.pending.take room := by simp [portion, fill]
    have hrest : rest.1 = stream.pending.drop room := ih.trans (stream.pending_fill room)
    rw [hportion, hrest, List.take_append_drop]

/-- What a distance stands for does not depend on what has been handed out. -/
lemma score_drain (room : Nat) (stream : ResultStream) :
    (stream.drain room).2.score = stream.score := by
  fun_induction drain room stream with
  | case1 => rfl
  | case2 stream portion _ rest ih => exact ih

/-- A search without results has nothing to hand out. -/
lemma pending_eq_nil {stream : ResultStream} (h : stream.isEmpty = true) :
    stream.pending = [] := by
  rw [isEmpty, List.isEmpty_iff] at h
  rw [pending, h, List.drop_nil]

/-- A stream that has handed out nothing has all its results left. -/
theorem drain_ofResults {room : Nat} (hroom : 0 < room) (score : Single → Single)
    (results : List Candidate) : ((ofResults score results).drain room).1 = results :=
  drain_eq_pending hroom _

end ResultStream

/-! ## The definition -/

/-- **A field accepts a query** if it has the form of a vector of the field and the length of those
that are there. -/
structure FieldRecord.Accepts (field : FieldRecord) (vectors : List Accepted)
    (query encoded : Bytes) : Prop where
  encoded : (Codec.ofOptions field.options).encode query = .ok encoded
  length : ∀ vector ∈ vectors, vector.raw.length = query.length

/-- A vector with its distance to an encoded query. -/
def Accepted.candidate (codec : Codec) (encoded : Bytes) (vector : Accepted) : Candidate where
  distance := codec.distance encoded vector.stored
  id := vector.id

/-- **The nearest of some vectors**: the candidates of all of them in ascending order, cut off after
`count` of them. -/
def Search.nearest (codec : Codec) (encoded : Bytes) (vectors : List Accepted) (count : Nat) :
    List Candidate :=
  (Candidate.sort (vectors.map (Accepted.candidate codec encoded))).take count

/-- The candidates are named as their vectors. -/
lemma Accepted.map_id_candidate (codec : Codec) (encoded : Bytes) (vectors : List Accepted) :
    (vectors.map (Accepted.candidate codec encoded)).map Candidate.id =
      vectors.map Accepted.id := by
  rw [List.map_map]
  rfl

/-- The nearest vectors do not depend on the order in which the vectors come. -/
lemma Search.nearest_eq_of_perm {codec : Codec} {encoded : Bytes} {vectors other : List Accepted}
    (hperm : vectors.Perm other) (hids : (vectors.map Accepted.id).Nodup) (count : Nat) :
    nearest codec encoded vectors count = nearest codec encoded other count := by
  rw [nearest, nearest, Candidate.sort_eq_of_perm (hperm.map _)
    (by rwa [Accepted.map_id_candidate])]

/-- **There is room** for the `count` nearest of some vectors and for one more. Where there are no
vectors no room is asked for. -/
def Search.HasRoom (vectors : List Accepted) (count : Nat) : Prop :=
  vectors ≠ [] → count < maxRoom

/-- The check that there can be room for the `count` nearest of some vectors, if there are any. -/
def Search.checkRoomFor (vectors : List Accepted) (count : Nat) : Except IndexError Unit :=
  if 0 < vectors.length ∧ 0 < count then checkRoom count else .ok ()

/-- Less than there can be room for. -/
lemma Search.checkRoom_eq_ok {count : Nat} (h : count < maxRoom) : checkRoom count = .ok () := by
  have hword : count + 1 < UInt64.size := Nat.lt_of_le_of_lt h (by decide)
  rw [checkRoom, Nat.mod_eq_of_lt hword, if_pos (show count + 1 ≤ maxRoom from h)]

/-- There is room for what is kept of no vectors, or of some if it is not too much. -/
lemma Search.HasRoom.checkRoomFor_eq_ok {vectors : List Accepted} {count : Nat}
    (h : HasRoom vectors count) : checkRoomFor vectors count = .ok () := by
  rw [checkRoomFor]
  split_ifs with hsome
  · exact checkRoom_eq_ok (h (List.length_pos_iff.mp hsome.1))
  · rfl

/-- More than there can be room for, as far as it can be counted. -/
lemma Search.checkRoom_eq_error {count : Nat} (h : maxRoom ≤ count)
    (hword : count + 1 < UInt64.size) : checkRoom count = .error (.roomOverflow (count + 1)) := by
  rw [checkRoom, Nat.mod_eq_of_lt hword, if_neg (Nat.not_le.mpr (Nat.lt_succ_of_le h))]

/-- More than there can be room for is asked for. -/
lemma Search.checkRoomFor_eq_error {vectors : List Accepted} {count : Nat}
    (h : ¬HasRoom vectors count) (hword : count + 1 < UInt64.size) :
    checkRoomFor vectors count = .error (.roomOverflow (count + 1)) := by
  obtain ⟨hsome, hmany⟩ := Classical.not_imp.mp h
  have hpos : 0 < count := Nat.lt_of_lt_of_le (by decide) (Nat.le_of_not_lt hmany)
  rw [checkRoomFor, if_pos ⟨List.length_pos_iff.mpr hsome, hpos⟩,
    checkRoom_eq_error (Nat.le_of_not_lt hmany) hword]

namespace GraphContents.Sound

variable {contents : GraphContents} {field : FieldRecord} {vectors : List Accepted}
  {query encoded : Bytes}

/-- A query that a field accepts has the length of the vectors in their stored form. -/
lemma vectorLength_eq (h : contents.Sound field vectors)
    (haccepts : field.Accepts vectors query encoded) (hne : vectors ≠ []) :
    contents.header.vectorLength = encoded.length := by
  obtain ⟨vector, hvector⟩ := List.exists_mem_of_ne_nil vectors hne
  rw [← h.storedLength vector hvector, (length_encodeVector (h.encoded vector hvector)).1,
    (length_encodeVector haccepts.encoded).1, haccepts.length vector hvector]

/-- A query that a field accepts is brought into its encoded form. -/
lemma encodeQuery_eq_ok (h : contents.Sound field vectors)
    (haccepts : field.Accepts vectors query encoded) :
    Search.encodeQuery field contents.header.rawLength query = .ok encoded := by
  have hlength : ¬(0 < contents.header.rawLength ∧ query.length ≠ contents.header.rawLength) := by
    rintro ⟨hpos, hne⟩
    have hvectors : vectors ≠ [] := fun hnil => by
      rw [h.blank hnil] at hpos
      exact absurd hpos (Nat.lt_irrefl 0)
    obtain ⟨vector, hvector⟩ := List.exists_mem_of_ne_nil vectors hvectors
    exact hne ((haccepts.length vector hvector).symm.trans (h.rawLength vector hvector))
  simp only [Search.encodeQuery, Except.throw_eq_error, Except.error_bind, Except.pure_eq_ok]
  rw [if_neg hlength, haccepts.encoded]

/-- **A query is accepted, or what is wrong with it is reported** as a fault of the query.

**Proof sketch.** The length is checked and then the encoding, and both errors are faults of the
query. -/
theorem encodeQuery_cases (h : contents.Sound field vectors) (query : Bytes) :
    (∃ reason, Search.encodeQuery field contents.header.rawLength query =
      .error (.invalidQuery reason)) ∨ ∃ encoded, field.Accepts vectors query encoded := by
  cases hresult : Search.encodeQuery field contents.header.rawLength query with
  | error e =>
    simp only [Search.encodeQuery, Except.throw_eq_error, Except.error_bind, Except.pure_eq_ok]
      at hresult
    split_ifs at hresult with hlength
    · exact .inl ⟨_, congrArg Except.error (Except.error.inj hresult).symm⟩
    · cases hencode : (Codec.ofOptions field.options).encode query with
      | ok encoded => simp [hencode] at hresult
      | error e' =>
        rw [hencode] at hresult
        exact .inl ⟨_, congrArg Except.error (Except.error.inj hresult).symm⟩
  | ok encoded =>
    simp only [Search.encodeQuery, Except.throw_eq_error, Except.error_bind, Except.pure_eq_ok]
      at hresult
    split_ifs at hresult with hlength
    cases hencode : (Codec.ofOptions field.options).encode query with
    | error e => simp [hencode] at hresult
    | ok encoded =>
      refine .inr ⟨encoded, hencode, fun vector hvector => ?_⟩
      obtain ⟨_, hcheck, _⟩ := Except.bind_eq_ok_iff.mp (h.encoded vector hvector)
      have hpos := (Encoding.pos_of_check hcheck).1
      have hraw := h.rawLength vector hvector
      omega

end GraphContents.Sound

/-! ## The exact search -/

namespace Snapshot.Sound

variable {view : Snapshot} {ledger : Ledger} {name : String} {field : FieldRecord}
  {contents : GraphContents} {layout : ContainerLayout} {shelves : List Shelf}

/-- **A scan finds the containers of a field**, in the order of their pages.

**Proof sketch.** The keys of the containers ascend with the pages, and there is one for each shelf
and no other under the stem. -/
theorem scan_containerStem (h : view.Sound ledger) (hfind : Catalog.find view name = .ok field)
    (hholds : view.Holds name contents) (hshelved : contents.Shelved layout shelves) :
    view.scan (RecordKey.containerStem name) = shelves.map fun shelf =>
      ((RecordKey.container name shelf.page).bytes,
        (view.get? (RecordKey.container name shelf.page).bytes).getD []) := by
  refine scan_eq_of_mem_iff ?_ fun key value => ⟨fun hin => ?_, ?_⟩
  · rw [List.pairwise_map]
    refine hshelved.ascending.imp fun {a b} hab => ?_
    rw [RecordKey.compare_container_bytes]
    exact Nat.compare_eq_lt.mpr (UInt64.lt_iff_toNat_lt.mp hab)
  · obtain ⟨shelf, hshelf, heq⟩ := List.mem_map.mp hin
    obtain ⟨container, hcontainer, _⟩ := hshelved.holds shelf hshelf
    have hsome := hholds.isSome_get?_container shelf.page
    rw [hcontainer, Option.isSome_some] at hsome
    obtain ⟨stored, hstored⟩ := Option.isSome_iff_exists.mp hsome
    rw [hstored, Option.getD_some, Prod.mk.injEq] at heq
    obtain ⟨rfl, rfl⟩ := heq
    exact ⟨hstored, Bytes.startsWith_iff.mpr ⟨_, rfl⟩⟩
  · rintro ⟨hget, hstarts⟩
    obtain ⟨record, rfl, hplain, _⟩ := h.key key value hget
    obtain ⟨page, rfl⟩ :=
      (RecordKey.startsWith_containerStem_iff hplain (h.slash_notMem hfind)).mp hstarts
    have hsome := hholds.isSome_get?_container page
    rw [hget, Option.isSome_some] at hsome
    obtain ⟨container, hcontainer⟩ := Option.isSome_iff_exists.mp hsome.symm
    obtain ⟨shelf, hshelf, rfl⟩ := hshelved.listed page container hcontainer
    exact List.mem_map.mpr ⟨shelf, hshelf, by rw [hget, Option.getD_some]⟩

/-- The record of a container leads to its vectors. -/
lemma vectorsOfEntry_eq (hholds : view.Holds name contents)
    (hshelved : contents.Shelved layout shelves) (hfits : layout.Fits) {shelf : Shelf}
    (hshelf : shelf ∈ shelves) :
    Container.vectorsOfEntry view name layout ((RecordKey.container name shelf.page).bytes,
      (view.get? (RecordKey.container name shelf.page).bytes).getD []) =
        .ok (shelf.vectors.map Accepted.entry) := by
  obtain ⟨container, hcontainer, hvectors⟩ := hshelved.holds shelf hshelf
  have hpage := hholds.container shelf.page
  rw [hcontainer] at hpage
  obtain ⟨stored, hstored, hread⟩ := Option.map_eq_some_iff.mp hpage
  have hnumber : RecordKey.number? ((Bytes.after? (RecordKey.containerStem name)
      (RecordKey.container name shelf.page).bytes).getD []) = some shelf.page.number := by
    rw [RecordKey.bytes, Bytes.after?_append, Option.getD_some, RecordKey.number?_bigEndian]
  rw [hstored, Option.getD_some]
  simp only [Container.vectorsOfEntry, hnumber, hread, Except.ok_bind]
  exact hvectors.vectorsFrom_eq hfits shelf.page

/-- **A scan gives the vectors that a field has accepted**, in the order in which it accepted
them.

**Proof sketch.** The scan reads the containers in the order of the shelves, and each gives the
vectors of its shelf. -/
theorem exists_scan (h : view.Sound ledger) (hfind : Catalog.find view name = .ok field)
    (hholds : view.Holds name contents) (hsound : contents.Sound field (ledger name))
    (hne : ledger name ≠ []) :
    ∃ layout, ContainerLayout.forVectorLength? contents.header.vectorLength = some layout ∧
      Container.scan view name layout = .ok ((ledger name).map Accepted.entry) := by
  obtain ⟨layout, shelves, hshelved, _, hledger, hlayout⟩ := hsound.shelved
  obtain ⟨hlayout, hfits, _⟩ := hlayout hne
  have hparts : (view.scan (RecordKey.containerStem name)).mapM
      (Container.vectorsOfEntry view name layout) =
        .ok (shelves.map fun shelf => shelf.vectors.map Accepted.entry) := by
    rw [h.scan_containerStem hfind hholds hshelved, List.mapM_map]
    exact Except.mapM_eq_ok fun shelf hshelf => vectorsOfEntry_eq hholds hshelved hfits hshelf
  refine ⟨layout, hlayout, ?_⟩
  rw [Container.scan, hparts, Except.ok_bind, ← hledger, List.map_flatMap, List.flatMap_def,
    Except.pure_eq_ok]

variable {query encoded : Bytes} {count : Nat}

/-- The candidates that are kept are the nearest vectors, if there is room for them. -/
lemma scanNearest_eq (h : view.Sound ledger) (hfind : Catalog.find view name = .ok field)
    (hholds : view.Holds name contents) (hsound : contents.Sound field (ledger name))
    (hne : ledger name ≠ []) (count : Nat) (encoded : Bytes) :
    Search.scanNearest view field contents.header.vectorLength count encoded = (do
      Search.checkRoom count
      return Search.nearest (.ofOptions field.options) encoded (ledger name) count) := by
  obtain ⟨rfl, _⟩ := h.valid hfind
  obtain ⟨layout, hlayout, hscan⟩ := h.exists_scan hfind hholds hsound hne
  have hnearest := @Search.foldl_keepNearest count
    ((ledger field.name).map (Accepted.candidate (.ofOptions field.options) encoded))
    (by rw [Accepted.map_id_candidate]; exact hsound.nodup)
  simp only [Search.scanNearest, hlayout, hscan, Except.ok_bind, Except.pure_eq_ok, List.map_map]
  exact congrArg (fun found => Search.checkRoom count >>= fun _ => Except.ok found) hnearest

/-- **The exact search follows the definition**: if there is room for them then it answers the
nearest vectors, as far as they are similar enough.

**Proof sketch.** If there are vectors and some are asked for they are all scanned. Otherwise the
nearest vectors are none. -/
theorem exactIn_eq (h : view.Sound ledger) (hfind : Catalog.find view name = .ok field)
    (hholds : view.Holds name contents) (hsound : contents.Sound field (ledger name))
    (haccepts : field.Accepts (ledger name) query encoded) (count : Nat) (minSimilarity : Single) :
    Search.exactIn view field count query minSimilarity = (do
      Search.checkRoomFor (ledger name) count
      return Search.streamOf (.ofOptions field.options) contents.header.vectorLength
        (Search.similar (.ofOptions field.options) encoded.length minSimilarity
          (Search.nearest (.ofOptions field.options) encoded (ledger name) count))) := by
  obtain ⟨rfl, _⟩ := h.valid hfind
  have hsimilar : ∀ vectorLength, Search.similar (.ofOptions field.options) vectorLength
      minSimilarity [] = [] := fun _ => List.filter_nil
  simp only [Search.exactIn, hholds.header, hsound.encodeQuery_eq_ok haccepts, hsound.nodeCount,
    Except.ok_bind, Except.pure_eq_ok, Search.checkRoomFor]
  by_cases hsome : 0 < (ledger field.name).length ∧ 0 < count
  · have hne : ledger field.name ≠ [] := List.length_pos_iff.mp hsome.1
    rw [if_pos hsome, if_pos hsome, h.scanNearest_eq hfind hholds hsound hne count encoded,
      hsound.vectorLength_eq haccepts hne]
    cases Search.checkRoom count <;> rfl
  · have hnil :
        Search.nearest (.ofOptions field.options) encoded (ledger field.name) count = [] := by
      rcases Nat.eq_zero_or_pos count with rfl | hpos
      · rw [Search.nearest, List.take_zero]
      · have hempty : ledger field.name = [] := List.length_eq_zero_iff.mp (by omega)
        rw [hempty, Search.nearest, List.map_nil, Candidate.sort, List.mergeSort_nil, List.take_nil]
    rw [if_neg hsome, if_neg hsome, Except.ok_bind, hnil, hsimilar, hsimilar]

/-- **The exact search answers or reports a fault of the query**, if there is room. -/
theorem exactIn_cases (h : view.Sound ledger) (hfind : Catalog.find view name = .ok field)
    {count : Nat} (hroom : Search.HasRoom (ledger name) count) (query : Bytes)
    (minSimilarity : Single) :
    (∃ stream, Search.exactIn view field count query minSimilarity = .ok stream) ∨
      ∃ reason, Search.exactIn view field count query minSimilarity =
        .error (.invalidQuery reason) := by
  obtain ⟨rfl, _⟩ := h.valid hfind
  obtain ⟨contents, hholds, hsound, _⟩ := h.graph field.name field hfind
  rcases hsound.encodeQuery_cases query with ⟨reason, herror⟩ | ⟨encoded, haccepts⟩
  · refine .inr ⟨reason, ?_⟩
    rw [Search.exactIn, hholds.header, Except.ok_bind, herror, Except.error_bind]
  · rw [h.exactIn_eq hfind hholds hsound haccepts, hroom.checkRoomFor_eq_ok, Except.ok_bind]
    exact .inl ⟨_, rfl⟩

/-! ## The search in the graph -/

/-- **The search in the graph** finds candidates of the vectors in ascending order, as many as the
beam is wide or, if there are fewer vectors, all of them.

**Proof sketch.** The search in the graph finds candidates of its nodes, which are the vectors that
have been accepted. -/
theorem exists_search (h : view.Sound ledger) (hfind : Catalog.find view name = .ok field)
    (encoded : Bytes) (width : Nat) :
    ∃ graph found, FieldGraph.load view name (.ofOptions field.options) = .ok graph ∧
      graph.search encoded width = .ok found ∧ Candidate.Ascending found ∧
      (found.map Candidate.id).Nodup ∧ found.length = min (max width 1) (ledger name).length ∧
      found ⊆ (ledger name).map (Accepted.candidate (.ofOptions field.options) encoded) := by
  obtain ⟨rfl, _⟩ := h.valid hfind
  obtain ⟨contents, hholds, hsound, _⟩ := h.graph field.name field hfind
  obtain ⟨graph, hload, hshows⟩ := FieldGraph.exists_load hholds
  obtain ⟨found, hsearch, hascending, hnodup, hlength, hfound⟩ := hshows.exists_search hsound.linked
    hsound.members_subset_stored encoded width hsound.nodup fun id => (hsound.registered id).symm
  rw [List.length_map] at hlength
  refine ⟨graph, found, hload, hsearch, hascending, hnodup, hlength, fun c hc => ?_⟩
  obtain ⟨hid, bytes, hstores, hdistance⟩ := hfound c hc
  obtain ⟨vector, hvector, heq⟩ := List.mem_map.mp hid
  refine List.mem_map.mpr ⟨vector, hvector, ?_⟩
  have hstored := hstores.unique (heq ▸ hsound.stores hvector)
  rw [Accepted.candidate, heq, ← hstored, hdistance]

/-- Candidates of all vectors in ascending order are the nearest vectors. -/
lemma eq_nearest {codec : Codec} {vectors : List Accepted} {found : List Candidate}
    (hids : (vectors.map Accepted.id).Nodup) (hascending : Candidate.Ascending found)
    (hnodup : (found.map Candidate.id).Nodup)
    (hsub : found ⊆ vectors.map (Accepted.candidate codec encoded))
    (hlength : vectors.length ≤ found.length) (hcount : vectors.length ≤ count) :
    found = Search.nearest codec encoded vectors count := by
  have hperm : found.Perm (vectors.map (Accepted.candidate codec encoded)) :=
    (hnodup.of_map.subperm hsub).perm_of_length_le (by rwa [List.length_map])
  have hsorted := Candidate.eq_sort hascending hperm (by rwa [Accepted.map_id_candidate])
  have hsize := hperm.length_eq
  rw [List.length_map] at hsize
  rw [Search.nearest, ← hsorted, List.take_of_length_le (by omega)]

/-- The approximate search hands over to the exact one if its beam is as wide as the field is
large. -/
lemma approximateIn_eq_exactIn (h : view.Sound ledger)
    (hfind : Catalog.find view name = .ok field) (hne : ledger name ≠ []) {width : Nat}
    (hwide : (ledger name).length ≤ width) (query : Bytes) (minSimilarity : Single) :
    Search.approximateIn view field width query minSimilarity =
      Search.exactIn view field width query minSimilarity := by
  obtain ⟨rfl, _⟩ := h.valid hfind
  obtain ⟨contents, hholds, hsound, _⟩ := h.graph field.name field hfind
  have hsome : 0 < (ledger field.name).length := List.length_pos_iff.mpr hne
  simp only [Search.approximateIn, if_neg (Nat.ne_of_gt (Nat.lt_of_lt_of_le hsome hwide)),
    hholds.header, hsound.nodeCount, Except.ok_bind, if_pos (And.intro hsome hwide)]

/-- **The approximate search** answers what the search in the graph finds, as far as it is similar
enough, also where it looks at all vectors instead and there is room.

**Proof sketch.** If all vectors are scanned the nearest of them are found, and so they are by a
search in the graph that is as broad. Otherwise the search in the graph is made. -/
theorem exists_approximateIn (h : view.Sound ledger) (hfind : Catalog.find view name = .ok field)
    (haccepts : field.Accepts (ledger name) query encoded) {width : Nat} (hwidth : 0 < width)
    (hroom : (ledger name).length ≤ width → Search.HasRoom (ledger name) width)
    (minSimilarity : Single) :
    ∃ graph found vectorLength, FieldGraph.load view name (.ofOptions field.options) = .ok graph ∧
      graph.search encoded width = .ok found ∧
      Search.approximateIn view field width query minSimilarity =
        .ok (Search.streamOf (.ofOptions field.options) vectorLength
          (Search.similar (.ofOptions field.options) encoded.length minSimilarity found)) := by
  obtain ⟨rfl, _⟩ := h.valid hfind
  obtain ⟨contents, hholds, hsound, _⟩ := h.graph field.name field hfind
  obtain ⟨graph, found, hload, hsearch, hascending, hnodup, hlength, hsub⟩ :=
    h.exists_search hfind encoded width
  refine ⟨graph, found, contents.header.vectorLength, hload, hsearch, ?_⟩
  have hsimilar : ∀ vectorLength, Search.similar (.ofOptions field.options) vectorLength
      minSimilarity [] = [] := fun _ => List.filter_nil
  by_cases hall : 0 < (ledger field.name).length ∧ (ledger field.name).length ≤ width
  · have hsize : (ledger field.name).length ≤ found.length := by omega
    rw [h.approximateIn_eq_exactIn hfind (List.length_pos_iff.mp hall.1) hall.2,
      h.exactIn_eq hfind hholds hsound haccepts, (hroom hall.2).checkRoomFor_eq_ok, Except.ok_bind,
      Except.pure_eq_ok, eq_nearest hsound.nodup hascending hnodup hsub hsize hall.2]
  simp only [Search.approximateIn, hholds.header, hsound.encodeQuery_eq_ok haccepts,
    hsound.nodeCount, Except.ok_bind, Except.pure_eq_ok, Except.throw_eq_error]
  rw [if_neg (Nat.ne_of_gt hwidth), if_neg hall]
  by_cases hsome : 0 < (ledger field.name).length
  · have hne : ledger field.name ≠ [] := List.length_pos_iff.mp hsome
    rw [if_pos hsome, hload, Except.ok_bind, hsearch, Except.ok_bind,
      hsound.vectorLength_eq haccepts hne]
  · have hnil : found = [] := List.length_eq_zero_iff.mp (by omega)
    rw [if_neg hsome, hnil, hsimilar, hsimilar]

/-- **The approximate search answers or reports a fault of the query**, if there is room where it
looks at all vectors.

**Proof sketch.** If all vectors are scanned it is the exact search. Otherwise the query is a fault
or is accepted, and the search in the graph succeeds. -/
theorem approximateIn_cases (h : view.Sound ledger) (hfind : Catalog.find view name = .ok field)
    {width : Nat} (hroom : (ledger name).length ≤ width → Search.HasRoom (ledger name) width)
    (query : Bytes) (minSimilarity : Single) :
    (∃ stream, Search.approximateIn view field width query minSimilarity = .ok stream) ∨
      ∃ reason, Search.approximateIn view field width query minSimilarity =
        .error (.invalidQuery reason) := by
  rcases Nat.eq_zero_or_pos width with rfl | hwidth
  · exact .inr ⟨_, rfl⟩
  obtain ⟨rfl, _⟩ := h.valid hfind
  by_cases hall : ledger field.name ≠ [] ∧ (ledger field.name).length ≤ width
  · rw [h.approximateIn_eq_exactIn hfind hall.1 hall.2]
    exact h.exactIn_cases hfind (hroom hall.2) query minSimilarity
  obtain ⟨contents, hholds, hsound, _⟩ := h.graph field.name field hfind
  rcases hsound.encodeQuery_cases query with ⟨reason, herror⟩ | ⟨encoded, haccepts⟩
  · refine .inr ⟨reason, ?_⟩
    simp only [Search.approximateIn, if_neg (Nat.ne_of_gt hwidth), hholds.header, herror,
      hsound.nodeCount, Except.ok_bind, Except.error_bind]
    rw [if_neg fun hboth => hall ⟨List.length_pos_iff.mp hboth.1, hboth.2⟩]
  · obtain ⟨_, _, _, _, _, hresult⟩ :=
      h.exists_approximateIn hfind haccepts hwidth hroom minSimilarity
    exact .inl ⟨_, hresult⟩

end Snapshot.Sound

end Proximity

import Proximity.Proofs.Index.Founding
import Proximity.Proofs.Search

set_option relaxedAutoImplicit false
set_option autoImplicit false

/-!
# Searching an index

What a search answers depends on the vectors that the field has accepted, and on nothing else in the
history of the index: the exact search follows its definition, and the search in the graph finds as
many vectors as its beam is wide.

The exact search asks for room for as many candidates as it has been told to keep, and not only for
as many as there are. So it breaks down where it has been told to keep more than there can be room
for, and with it the approximate search where it hands over to the exact one. The search in the
graph takes what room it needs, and knows no such limit.

## Main results

* `Proximity.Index.Reachable.exact_eq_nearest` — the exact search equals its definition exactly if
  there can be room for what it keeps.
* `Proximity.Index.Reachable.not_forall_exact` — it does not equal its definition always.
* `Proximity.Index.Reachable.search_complete` — the search in the graph is complete up to its beam,
  and the scan that takes its place finds the same if there can be room.
* `Proximity.Index.Reachable.not_forall_scanned` — the scan does not find the same always.
-/

namespace Proximity.Index.Reachable

variable {allowed : Operation → Prop} {index : Index} {view : Snapshot} {ledger : Ledger}
  {name : String} {field : FieldRecord} {query encoded : Bytes}

/-- What the exact search hands out, in portions of any size, if there is room for it. -/
lemma exists_exact (h : Reachable allowed index) (hsees : index.Sees view ledger)
    (hfind : Catalog.find view name = .ok field)
    (haccepts : field.Accepts (ledger name) query encoded) {count : Nat}
    (hroom : Search.HasRoom (ledger name) count) (minSimilarity : Single) :
    ∃ stream, Search.exact view name count query minSimilarity = .ok stream ∧
      ∀ room, 0 < room → (stream.drain room).1 =
        Search.similar (.ofOptions field.options) encoded.length minSimilarity
          (Search.nearest (.ofOptions field.options) encoded (ledger name) count) := by
  have hview := h.sound_view hsees
  obtain ⟨rfl, _⟩ := hview.valid hfind
  obtain ⟨contents, hholds, hsound, _⟩ := hview.graph field.name field hfind
  have hexact := hview.exactIn_eq hfind hholds hsound haccepts count minSimilarity
  rw [hroom.checkRoomFor_eq_ok, Except.ok_bind] at hexact
  refine ⟨_, ?_, fun room hroom => ResultStream.drain_ofResults hroom
    ((Codec.ofOptions field.options).score · contents.header.vectorLength) _⟩
  rw [Search.exact, hfind, Except.ok_bind, hexact, Except.pure_eq_ok, Search.streamOf]

/-- The exact search breaks down if there is no room for what it has been told to keep. -/
lemma exact_eq_error (h : Reachable allowed index) (hsees : index.Sees view ledger)
    (hfind : Catalog.find view name = .ok field)
    (haccepts : field.Accepts (ledger name) query encoded) {count : Nat}
    (hroom : ¬Search.HasRoom (ledger name) count) (hword : count + 1 < UInt64.size)
    (minSimilarity : Single) :
    Search.exact view name count query minSimilarity = .error (.roomOverflow (count + 1)) := by
  have hview := h.sound_view hsees
  obtain ⟨rfl, _⟩ := hview.valid hfind
  obtain ⟨contents, hholds, hsound, _⟩ := hview.graph field.name field hfind
  rw [Search.exact, hfind, Except.ok_bind,
    hview.exactIn_eq hfind hholds hsound haccepts count minSimilarity,
    Search.checkRoomFor_eq_error hroom hword, Except.error_bind]

/-- The approximate search answers what the exact one does if its beam is as wide as the field is
large. -/
lemma approximate_eq_exact (h : Reachable allowed index) (hsees : index.Sees view ledger)
    (hfind : Catalog.find view name = .ok field) (hne : ledger name ≠ []) {width : Nat}
    (hwide : (ledger name).length ≤ width) (query : Bytes) (minSimilarity : Single) :
    Search.approximate view name width query minSimilarity =
      Search.exact view name width query minSimilarity := by
  rw [Search.approximate, Search.exact, hfind, Except.ok_bind, Except.ok_bind,
    (h.sound_view hsees).approximateIn_eq_exactIn hfind hne hwide]

/-- A field of numbers on a line accepts the number zero as a query. -/
lemma accepts_spread {vectors : List Accepted} (hoptions : field.options = onLine)
    (hvectors : vectors.Perm Accepted.spread) :
    field.Accepts vectors [0, 0, 0, 0] [0, 0, 0, 0] where
  encoded := by
    rw [hoptions]
    decide +kernel
  length vector hvector :=
    (by decide : ∀ vector ∈ Accepted.spread, vector.raw.length = 4) vector
      (hvectors.mem_iff.mp hvector)

/-- There are four numbers, hence some. -/
lemma spread_ne_nil {vectors : List Accepted} (hvectors : vectors = Accepted.spread) :
    vectors ≠ [] := by
  rw [hvectors]
  exact List.cons_ne_nil _ _

/-- There cannot be room for `2 ^ 60` candidates of the four numbers. -/
lemma not_hasRoom_spread {vectors : List Accepted} (hvectors : vectors = Accepted.spread) :
    ¬Search.HasRoom vectors (2 ^ 60) := fun hroom =>
  absurd (hroom (spread_ne_nil hvectors)) (by decide)

/-- From zero, the four numbers are at the distances zero, one, one and two. -/
lemma sort_spread :
    Candidate.sort (Accepted.spread.map (Accepted.candidate (.ofOptions onLine) [0, 0, 0, 0])) =
      [⟨⟨0⟩, ⟨1⟩⟩, ⟨⟨0x3f800000⟩, ⟨2⟩⟩, ⟨⟨0x3f800000⟩, ⟨3⟩⟩, ⟨⟨0x40000000⟩, ⟨4⟩⟩] := by
  have hspread : Accepted.spread.map (Accepted.candidate (.ofOptions onLine) [0, 0, 0, 0]) =
      [⟨⟨0⟩, ⟨1⟩⟩, ⟨⟨0x3f800000⟩, ⟨2⟩⟩, ⟨⟨0x3f800000⟩, ⟨3⟩⟩, ⟨⟨0x40000000⟩, ⟨4⟩⟩] := by
    decide +kernel
  rw [hspread]
  refine (Candidate.eq_sort ?_ .rfl (by decide)).symm
  unfold Candidate.Ascending
  decide +kernel

/-- **The exact search equals its definition, if there is room.** It hands out the candidates of all
vectors that the field has accepted, in ascending order, the first `count` of them, as far as they
are similar enough. Two fields with the same options that have accepted the same vectors give the
same answers, in whatever order and by whatever histories they have accepted them.

If the field has vectors and there cannot be room for `count` of them and one more then the search
breaks down, however few vectors there are.

**Proof sketch.** What a transaction sees is sound, so that a scan gives the accepted vectors in
order; keeping the nearest of those seen so far sorts them. The order of the scan does not matter,
since no two candidates are equal in the order by distance and name. -/
theorem exact_eq_nearest (h : Reachable allowed index) (hsees : index.Sees view ledger)
    (hfind : Catalog.find view name = .ok field)
    (haccepts : field.Accepts (ledger name) query encoded) (count : Nat) (minSimilarity : Single) :
    (Search.HasRoom (ledger name) count →
      ∃ stream, Search.exact view name count query minSimilarity = .ok stream ∧
        (∀ room, 0 < room → (stream.drain room).1 =
          ((Candidate.sort ((ledger name).map fun vector =>
            { distance := (Codec.ofOptions field.options).distance encoded vector.stored
              id := vector.id })).take count).filter fun candidate =>
                minSimilarity.le
                  ((Codec.ofOptions field.options).score candidate.distance encoded.length)) ∧
        ∀ {allowed' : Operation → Prop} {index' : Index} {view' : Snapshot} {ledger' : Ledger}
          {name' : String} {field' : FieldRecord}, Reachable allowed' index' →
            index'.Sees view' ledger' → Catalog.find view' name' = .ok field' →
              field'.options = field.options → (ledger' name').Perm (ledger name) →
                ∃ stream', Search.exact view' name' count query minSimilarity = .ok stream' ∧
                  ∀ room, 0 < room → (stream'.drain room).1 = (stream.drain room).1) ∧
    (¬Search.HasRoom (ledger name) count → count + 1 < UInt64.size →
      Search.exact view name count query minSimilarity = .error (.roomOverflow (count + 1))) := by
  refine ⟨fun hroom => ?_, fun hroom hword =>
    h.exact_eq_error hsees hfind haccepts hroom hword minSimilarity⟩
  obtain ⟨stream, hexact, hdrain⟩ := h.exists_exact hsees hfind haccepts hroom minSimilarity
  refine ⟨stream, hexact, hdrain, ?_⟩
  intro allowed' index' view' ledger' name' field' h' hsees' hfind' hoptions hperm
  have haccepts' : field'.Accepts (ledger' name') query encoded :=
    ⟨hoptions ▸ haccepts.encoded, fun vector hvector =>
      haccepts.length vector (hperm.mem_iff.mp hvector)⟩
  have hroom' : Search.HasRoom (ledger' name') count := fun hne =>
    hroom fun hnil => hne (hnil ▸ hperm).eq_nil
  obtain ⟨stream', hexact', hdrain'⟩ := h'.exists_exact hsees' hfind' haccepts' hroom' minSimilarity
  refine ⟨stream', hexact', fun room hroom => ?_⟩
  obtain ⟨_, _, hsound, _⟩ := (h'.sound_view hsees').graph name' field' hfind'
  rw [hdrain room hroom, hdrain' room hroom, hoptions,
    Search.nearest_eq_of_perm hperm hsound.nodup]

/-- Two fields with the same four vectors, which came in another order and to other levels: both
hand out the nearest three in the same order, though the second and the third are equally far. The
fourth is not similar enough.

**Proof sketch.** Both fields are built by a run. The nearest vectors are the same for any order of
the vectors that were accepted, and can be computed. -/
theorem exists_exact_spread : ∃ (index index' : Index) (stream stream' : ResultStream),
    index.committed "v" = Accepted.spread ∧ index'.committed "v" = Accepted.spread.reverse ∧
      Search.exact index.store.beginRead "v" 4 [0, 0, 0, 0] ⟨0x3ecccccd⟩ = .ok stream ∧
      (stream.drain 1).1 = [⟨⟨0⟩, ⟨1⟩⟩, ⟨⟨0x3f800000⟩, ⟨2⟩⟩, ⟨⟨0x3f800000⟩, ⟨3⟩⟩] ∧
      Search.exact index'.store.beginRead "v" 4 [0, 0, 0, 0] ⟨0x3ecccccd⟩ = .ok stream' ∧
      (stream'.drain 64).1 = (stream.drain 64).1 := by
  obtain ⟨index, field, _, hreachable, hcommitted, hrests, _, hoptions⟩ := exists_spread
  obtain ⟨hreachable', hcommitted', field', _, hrests', _, hoptions'⟩ := @exists_run_spread
    [(.two, some 0), (.minusOne, none), (.one, some 4), (.zero, some 0)]
    (List.reverse_perm Accepted.spread) (by decide)
  have haccepts : field.Accepts (index.committed "v") [0, 0, 0, 0] [0, 0, 0, 0] :=
    accepts_spread hoptions (.of_eq hcommitted)
  obtain ⟨stream, hexact, hdrain, hother⟩ := (hreachable.exact_eq_nearest .reader hrests.find
    haccepts 4 ⟨0x3ecccccd⟩).1 fun _ => by decide
  obtain ⟨stream', hexact', hdrain'⟩ := hother hreachable' .reader hrests'.find
    (hoptions'.trans hoptions.symm) (by
      rw [hcommitted, hcommitted']
      exact List.reverse_perm Accepted.spread)
  refine ⟨index, _, stream, stream', hcommitted, hcommitted', hexact, ?_, hexact',
    hdrain' 64 (by decide)⟩
  have hfour := hdrain 1 (by decide)
  rw [hcommitted, hoptions] at hfour
  rw [hfour]
  refine (congrArg _ (congrArg (List.take 4) sort_spread)).trans ?_
  decide +kernel

/-- **The exact search does not always answer**: there cannot be room for `2 ^ 60` candidates, and
so it breaks down on four vectors.

**Proof sketch.** In a field of four vectors the scan reports that there is no room. -/
theorem not_forall_exact : ¬∀ {index : Index} {view : Snapshot} {ledger : Ledger} {name : String}
    {field : FieldRecord} {query encoded : Bytes}, Reachable Operation.IsShort index →
      index.Sees view ledger → Catalog.find view name = .ok field →
        field.Accepts (ledger name) query encoded → ∀ count, count < UInt64.size →
          ∀ minSimilarity, ∃ stream,
            Search.exact view name count query minSimilarity = .ok stream ∧
              ∀ room, 0 < room → (stream.drain room).1 =
                Search.similar (.ofOptions field.options) encoded.length minSimilarity
                  (Search.nearest (.ofOptions field.options) encoded (ledger name) count) := by
  intro hall
  obtain ⟨index, field, _, hreachable, hcommitted, hrests, _, hoptions⟩ := exists_spread
  have haccepts : field.Accepts (index.committed "v") [0, 0, 0, 0] [0, 0, 0, 0] :=
    accepts_spread hoptions (.of_eq hcommitted)
  obtain ⟨stream, hexact, _⟩ :=
    hall hreachable .reader hrests.find haccepts (2 ^ 60) (by decide) .zero
  rw [hreachable.exact_eq_error .reader hrests.find haccepts (not_hasRoom_spread hcommitted)
    (by decide)] at hexact
  cases hexact

/-- **The search in the graph is complete up to its beam.** It finds as many candidates as the beam
is wide or, if there are fewer vectors, all of them: different vectors of the field in ascending
order, each with its true distance. If the beam is wide enough for all vectors then it finds all of
them, and the approximate search answers what the exact one does. There a scan of all vectors takes
the place of the search in the graph; it finds the same candidates if there can be room for as many
as the beam is wide and for one more, and breaks down otherwise.

**Proof sketch.** The lowest layer is connected from wherever the descent lands, and the beam stops
early only when it is full. -/
theorem search_complete (h : Reachable allowed index) (hsees : index.Sees view ledger)
    (hfind : Catalog.find view name = .ok field) (hne : ledger name ≠ [])
    (haccepts : field.Accepts (ledger name) query encoded) {width : Nat} (hwidth : 0 < width) :
    ∃ graph found, FieldGraph.load view name (.ofOptions field.options) = .ok graph ∧
      graph.search encoded width = .ok found ∧
      found.length = min width (ledger name).length ∧ (found.map Candidate.id).Nodup ∧
      Candidate.Ascending found ∧
      (∀ candidate ∈ found, ∃ vector ∈ ledger name, vector.id = candidate.id ∧
        graph.vector candidate.id = .ok vector.stored ∧
        candidate.distance = (Codec.ofOptions field.options).distance encoded vector.stored) ∧
      ((ledger name).length ≤ width →
        found = Candidate.sort ((ledger name).map (Accepted.candidate (.ofOptions field.options)
          encoded)) ∧
        (width < Search.maxRoom →
          Search.scanNearest view field graph.header.vectorLength width encoded = .ok found) ∧
        (Search.maxRoom ≤ width → width + 1 < UInt64.size →
          Search.scanNearest view field graph.header.vectorLength width encoded =
            .error (.roomOverflow (width + 1))) ∧
        ∀ minSimilarity, Search.approximate view name width query minSimilarity =
          Search.exact view name width query minSimilarity) ∧
      (((ledger name).length ≤ width → width < Search.maxRoom) →
        ∀ minSimilarity, ∃ stream,
          Search.approximate view name width query minSimilarity = .ok stream ∧
            stream.results =
              Search.similar (.ofOptions field.options) encoded.length minSimilarity found) := by
  have hview := h.sound_view hsees
  obtain ⟨rfl, _⟩ := hview.valid hfind
  obtain ⟨contents, hholds, hsound, _⟩ := hview.graph field.name field hfind
  obtain ⟨graph, hload, hshows⟩ := FieldGraph.exists_load hholds
  obtain ⟨graph', found, hload', hsearch, hascending, hnodup, hlength, hsub⟩ :=
    hview.exists_search hfind encoded width
  obtain rfl : graph = graph' := Except.ok.inj (hload.symm.trans hload')
  rw [Nat.max_eq_left hwidth] at hlength
  refine ⟨graph, found, hload, hsearch, hlength, hnodup, hascending, fun candidate hin => ?_,
    fun hwide => ?_, fun hroom minSimilarity => ?_⟩
  · obtain ⟨vector, hvector, rfl⟩ := List.mem_map.mp (hsub hin)
    exact ⟨vector, hvector, rfl, hshows.vector_eq (hsound.stores hvector), rfl⟩
  · have hall := Snapshot.Sound.eq_nearest hsound.nodup hascending hnodup hsub
      (by omega) hwide
    have hscan := hview.scanNearest_eq hfind hholds hsound hne width encoded
    rw [hshows.header, hscan]
    refine ⟨?_, fun hroom => ?_, fun hmany hword => ?_, fun minSimilarity =>
      h.approximate_eq_exact hsees hfind hne hwide query minSimilarity⟩
    · rw [hall, Search.nearest, List.take_of_length_le]
      rw [(Candidate.perm_sort _).length_eq, List.length_map]
      exact hwide
    · rw [Search.checkRoom_eq_ok hroom, Except.ok_bind, hall, Except.pure_eq_ok]
    · rw [Search.checkRoom_eq_error hmany hword, Except.error_bind]
  · obtain ⟨graph'', found', vectorLength, hload'', hsearch', hresult⟩ :=
      hview.exists_approximateIn hfind haccepts hwidth (fun hwide _ => hroom hwide) minSimilarity
    obtain rfl : graph = graph'' := Except.ok.inj (hload.symm.trans hload'')
    obtain rfl : found = found' := Except.ok.inj (hsearch.symm.trans hsearch')
    refine ⟨Search.streamOf (.ofOptions field.options) vectorLength (Search.similar
      (.ofOptions field.options) encoded.length minSimilarity found), ?_, rfl⟩
    rw [Search.approximate, hfind, Except.ok_bind, hresult]

/-- A beam that is narrower than the field is large, in a graph of four nodes with two neighbors
each, and one that is wider.

**Proof sketch.** The field is built by a run. The number of candidates is the width at most, and
with a greater width than there are vectors the candidates are all of them in order. -/
theorem exists_search_spread : ∃ (index : Index) (graph : FieldGraph)
    (few many : List Candidate), index.committed "v" = Accepted.spread ∧
      FieldGraph.load index.store.beginRead "v" (.ofOptions onLine) = .ok graph ∧
      graph.search [0, 0, 0, 0] 3 = .ok few ∧ few.length = 3 ∧ Candidate.Ascending few ∧
      (few.map Candidate.id).Nodup ∧
      graph.search [0, 0, 0, 0] 7 = .ok many ∧
      many = [⟨⟨0⟩, ⟨1⟩⟩, ⟨⟨0x3f800000⟩, ⟨2⟩⟩, ⟨⟨0x3f800000⟩, ⟨3⟩⟩, ⟨⟨0x40000000⟩, ⟨4⟩⟩] := by
  obtain ⟨index, field, _, hreachable, hcommitted, hrests, _, hoptions⟩ := exists_spread
  have hne := spread_ne_nil hcommitted
  have haccepts : field.Accepts (index.committed "v") [0, 0, 0, 0] [0, 0, 0, 0] :=
    accepts_spread hoptions (.of_eq hcommitted)
  obtain ⟨graph, few, hload, hfew, hlength, hnodup, hascending, _⟩ :=
    hreachable.search_complete .reader hrests.find hne haccepts (show 0 < 3 by decide)
  obtain ⟨graph', many, hload', hmany, _, _, _, _, hwide, _⟩ :=
    hreachable.search_complete .reader hrests.find hne haccepts (show 0 < 7 by decide)
  obtain rfl : graph = graph' := Except.ok.inj (hload.symm.trans hload')
  have hall := (hwide (by rw [hcommitted]; decide)).1
  rw [hcommitted, hoptions, sort_spread] at hall
  rw [hcommitted] at hlength
  rw [hoptions] at hload
  exact ⟨index, graph, few, many, hcommitted, hload, hfew, hlength, hascending, hnodup, hmany,
    hall⟩

/-- **The scan does not always find what the search in the graph finds**: there cannot be room for
`2 ^ 60` candidates, and so it breaks down on four vectors, all of which the search in the graph
finds.

**Proof sketch.** In a field of four vectors the scan reports that there is no room. -/
theorem not_forall_scanned : ¬∀ {index : Index} {view : Snapshot} {ledger : Ledger} {name : String}
    {field : FieldRecord} {query encoded : Bytes}, Reachable Operation.IsShort index →
      index.Sees view ledger → Catalog.find view name = .ok field → ledger name ≠ [] →
        field.Accepts (ledger name) query encoded → ∀ width, (ledger name).length ≤ width →
          width < UInt64.size → ∃ graph found,
            FieldGraph.load view name (.ofOptions field.options) = .ok graph ∧
            graph.search encoded width = .ok found ∧
            ∀ minSimilarity, ∃ stream,
              Search.approximate view name width query minSimilarity = .ok stream ∧
                stream.results = Search.similar (.ofOptions field.options) encoded.length
                  minSimilarity found := by
  intro hall
  obtain ⟨index, field, _, hreachable, hcommitted, hrests, _, hoptions⟩ := exists_spread
  have hne := spread_ne_nil hcommitted
  have haccepts : field.Accepts (index.committed "v") [0, 0, 0, 0] [0, 0, 0, 0] :=
    accepts_spread hoptions (.of_eq hcommitted)
  have hwide : (index.committed "v").length ≤ 2 ^ 60 := by
    rw [hcommitted]
    decide
  obtain ⟨_, _, _, _, hanswer⟩ :=
    hall hreachable .reader hrests.find hne haccepts (2 ^ 60) hwide (by decide)
  obtain ⟨stream, hresult, _⟩ := hanswer .zero
  rw [hreachable.approximate_eq_exact .reader hrests.find hne hwide,
    hreachable.exact_eq_error .reader hrests.find haccepts (not_hasRoom_spread hcommitted)
      (by decide)] at hresult
  cases hresult

end Proximity.Index.Reachable

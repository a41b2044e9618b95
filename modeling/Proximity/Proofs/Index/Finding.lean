import Proximity.Proofs.Embedding.Undefined
import Proximity.Proofs.Index.Searching

set_option relaxedAutoImplicit false
set_option autoImplicit false

/-!
# Finding all vectors

An exact search for as many results as a field has vectors, and for any similarity, is to hand out
all of them. It does so for the vectors that have a distance to the query. A vector without one is
not similar to the query in any degree, not even in the least one, so that no search finds it; this
happens to vectors that the field has accepted, and with queries that are equal to them.

## Main results

* `Proximity.Search.perm_similar_nearest` — the vectors with a distance are similar enough.
* `Proximity.Index.Reachable.finds_defined` — an exact search finds the vectors whose distance to
  the query is defined.
* `Proximity.Index.Reachable.not_forall_finds` — it does not find all vectors.
-/

namespace Proximity

/-! ## The least similarity -/

namespace Search

variable {codec : Codec} {encoded : Bytes} {vectors : List Accepted} {count : Nat}

/-- Every candidate whose distance is a number is similar enough for the least similarity. -/
lemma similar_negativeInfinity {vectorLength : Nat} (hlength : vectorLength * 8 < 2 ^ 64)
    (candidates : List Candidate) :
    similar codec vectorLength .negativeInfinity candidates =
      candidates.filter fun candidate => !candidate.distance.isNaN := by
  refine List.filter_congr fun candidate _ => ?_
  rw [← codec.isNaN_score candidate.distance hlength, Bool.eq_iff_iff,
    Single.negativeInfinity_le_iff]
  simp

/-- **The vectors with a distance are similar enough** for the least similarity, if as many are
asked for as there are.

**Proof sketch.** If as many are asked for as there are, the nearest vectors are all vectors, in
another order. The least similarity lets pass the scores that are numbers, and these are those of
distances that are. -/
theorem perm_similar_nearest (hcount : vectors.length ≤ count)
    (hlength : vectors ≠ [] → encoded.length * 8 < 2 ^ 64) :
    ((similar codec encoded.length .negativeInfinity (nearest codec encoded vectors count)).map
      Candidate.id).Perm ((vectors.filter fun vector =>
        !(codec.distance encoded vector.stored).isNaN).map Accepted.id) := by
  have hperm : (nearest codec encoded vectors count).Perm
      (vectors.map (Accepted.candidate codec encoded)) := by
    rw [nearest, List.take_of_length_le]
    · exact Candidate.perm_sort _
    · rwa [(Candidate.perm_sort _).length_eq, List.length_map]
  cases vectors with
  | nil =>
    rw [List.perm_nil.mp hperm]
    exact .nil
  | cons vector vectors =>
    rw [similar_negativeInfinity (hlength (List.cons_ne_nil _ _))]
    refine ((hperm.filter _).map Candidate.id).trans (.of_eq ?_)
    rw [List.filter_map, List.map_map]
    rfl

end Search

/-- The vector of one number whose square is too great for the format, under the name six. -/
def Accepted.huge : Accepted :=
  ⟨⟨6⟩, [0xec, 0x78, 0xad, 0x60], [0xec, 0x78, 0xad, 0x60]⟩

namespace Index.Reachable

variable {allowed : Operation → Prop} {index : Index} {view : Snapshot} {ledger : Ledger}
  {name : String} {field : FieldRecord} {query encoded : Bytes}

/-- What an exact search for any similarity hands out, if there is room. -/
lemma exists_exact_negativeInfinity (h : Reachable allowed index) (hsees : index.Sees view ledger)
    (hfind : Catalog.find view name = .ok field)
    (haccepts : field.Accepts (ledger name) query encoded) {count : Nat}
    (hcount : (ledger name).length ≤ count) (hroom : Search.HasRoom (ledger name) count) :
    ∃ stream, Search.exact view name count query .negativeInfinity = .ok stream ∧
      ∀ room, 0 < room → ((stream.drain room).1.map Candidate.id).Perm
        (((ledger name).filter fun vector => !((Codec.ofOptions field.options).distance encoded
          vector.stored).isNaN).map Accepted.id) := by
  obtain ⟨stream, hexact, hdrain⟩ := h.exists_exact hsees hfind haccepts hroom .negativeInfinity
  obtain ⟨contents, _, hsound, _⟩ := (h.sound_view hsees).graph name field hfind
  refine ⟨stream, hexact, fun room hroom => ?_⟩
  rw [hdrain room hroom]
  refine Search.perm_similar_nearest hcount fun hne => ?_
  have hlong : maxStoredLength * 8 < 2 ^ 64 := by decide
  have hlength := hsound.vectorLength_le
  rw [hsound.vectorLength_eq haccepts hne] at hlength
  omega

/-- **An exact search finds the vectors whose distance to the query is defined**, each of them once,
if as many are asked for as there are, there can be room for so many, and any similarity will do. So
it finds all vectors of the field if and only if the distances of all of them to the query are
defined.

**Proof sketch.** The search hands out the nearest vectors, as far as they are similar enough. All
of them are among the nearest ones, and any distance that is a number stands for a score that is not
below the least one. -/
theorem finds_defined (h : Reachable allowed index) (hsees : index.Sees view ledger)
    (hfind : Catalog.find view name = .ok field)
    (haccepts : field.Accepts (ledger name) query encoded) {count : Nat}
    (hcount : (ledger name).length ≤ count) (hroom : Search.HasRoom (ledger name) count) :
    ∃ stream, Search.exact view name count query .negativeInfinity = .ok stream ∧
      ∀ room, 0 < room →
        ((stream.drain room).1.map Candidate.id).Nodup ∧
        ((stream.drain room).1.map Candidate.id).Perm
          (((ledger name).filter fun vector => !Distance.isUndefined field.options.destination
            field.options.metric encoded vector.stored).map Accepted.id) ∧
        (((stream.drain room).1.map Candidate.id).Perm ((ledger name).map Accepted.id) ↔
          ∀ vector ∈ ledger name, Distance.isUndefined field.options.destination
            field.options.metric encoded vector.stored = false) := by
  obtain ⟨stream, hexact, hdrain⟩ :=
    h.exists_exact_negativeInfinity hsees hfind haccepts hcount hroom
  obtain ⟨contents, _, hsound, _⟩ := (h.sound_view hsees).graph name field hfind
  have hdefined : ∀ vector ∈ ledger name,
      ((Codec.ofOptions field.options).distance encoded vector.stored).isNaN =
        Distance.isUndefined field.options.destination field.options.metric encoded
          vector.stored := fun vector hvector => by
    refine isNaN_distance haccepts.encoded (hsound.encoded vector hvector) ?_ _
    rw [hsound.storedLength vector hvector,
      hsound.vectorLength_eq haccepts (List.ne_nil_of_mem hvector)]
  rw [List.filter_congr fun vector hvector => by rw [hdefined vector hvector]] at hdrain
  refine ⟨stream, hexact, fun room hroom => ?_⟩
  have hperm := hdrain room hroom
  refine ⟨?_, hperm, fun hall => ?_, fun hall => ?_⟩
  · rw [hperm.nodup_iff]
    exact hsound.nodup.sublist (List.filter_sublist.map _)
  · have hlength := (hperm.symm.trans hall).length_eq
    rw [List.length_map, List.length_map] at hlength
    simpa using List.length_filter_eq_length_iff.mp hlength
  · rwa [List.filter_eq_self.mpr fun vector hvector => by rw [hall vector hvector]; rfl] at hperm

/-- A field of three vectors, one of which is too long to be compared with itself. -/
lemma exists_huge : ∃ index field pages, Reachable Operation.IsShort index ∧
    index.committed "v" = [.zero, .one, .huge] ∧ index.Rests "v" field pages ∧
    field.options = .ofShape 2 1 ∧
    field.Accepts (index.committed "v") Accepted.huge.raw Accepted.huge.stored := by
  have htakes : Registration.Takes (.ofShape 2 1) [.zero, .one, .huge] :=
    ⟨by decide, by decide +kernel, fun _ _ hpos => absurd hpos (by decide), by decide, by decide,
      by decide⟩
  obtain ⟨hreachable, hcommitted, field, hrests, hoptions⟩ := @exists_run_populating "v" _
    (by decide) (FieldOptions.validate_eq_ok_iff.mp (by decide)) ⟨by decide, by decide, by decide⟩
    [(.zero, some 1), (.one, none), (.huge, some 0)] htakes (by decide) (by decide)
  exact ⟨_, field, _, hreachable, hcommitted, hrests, hoptions, {
    encoded := by
      rw [hoptions]
      decide +kernel
    length := by
      rw [hcommitted]
      decide }⟩

/-- Of three vectors, a search for the longest one finds the two others. -/
theorem exists_finds_huge : ∃ (index : Index) (stream : ResultStream),
    index.committed "v" = [.zero, .one, .huge] ∧
      Search.exact index.store.beginRead "v" 3 Accepted.huge.raw .negativeInfinity = .ok stream ∧
      ((stream.drain 64).1.map Candidate.id).Perm [⟨1⟩, ⟨2⟩] := by
  obtain ⟨index, field, _, hreachable, hcommitted, hrests, hoptions, haccepts⟩ := exists_huge
  obtain ⟨stream, hexact, hdrain⟩ := hreachable.finds_defined .reader hrests.find haccepts
    (show _ ≤ 3 by rw [hcommitted]; decide) fun _ => by decide
  have hperm := (hdrain 64 (by decide)).2.1
  have hdefined : ([Accepted.zero, .one, .huge].filter fun vector =>
      !Distance.isUndefined (FieldOptions.ofShape 2 1).destination (FieldOptions.ofShape 2 1).metric
        Accepted.huge.stored vector.stored).map Accepted.id = [⟨1⟩, ⟨2⟩] := by
    decide +kernel
  rw [hcommitted, hoptions, hdefined] at hperm
  exact ⟨index, stream, hcommitted, hexact, hperm⟩

/-- **An exact search does not find all vectors**: one whose square is too great for the format has
no distance, not even to itself.

**Proof sketch.** The vector `1e20` has an undefined distance to itself, so that a search for it
hands out two of the three vectors at most. -/
theorem not_forall_finds : ¬∀ {index : Index} {view : Snapshot} {ledger : Ledger} {name : String}
    {field : FieldRecord} {query encoded : Bytes}, Reachable Operation.IsShort index →
      index.Sees view ledger → Catalog.find view name = .ok field →
        field.Accepts (ledger name) query encoded → ∀ count, (ledger name).length ≤ count →
          count < Search.maxRoom →
            ∃ stream, Search.exact view name count query .negativeInfinity = .ok stream ∧
              ∀ room, 0 < room →
                ((stream.drain room).1.map Candidate.id).Perm ((ledger name).map Accepted.id) := by
  intro hall
  obtain ⟨index, field, _, hreachable, hcommitted, hrests, hoptions, haccepts⟩ := exists_huge
  have hcount : (index.committed "v").length ≤ 3 := by
    rw [hcommitted]
    decide
  obtain ⟨stream, hexact, hdrain⟩ := hreachable.exists_exact_negativeInfinity .reader hrests.find
    haccepts hcount fun _ => by decide
  obtain ⟨stream', hexact', hdrain'⟩ :=
    hall hreachable .reader hrests.find haccepts 3 hcount (by decide)
  obtain rfl : stream = stream' := Except.ok.inj (hexact.symm.trans hexact')
  have hlength := ((hdrain 1 (by decide)).symm.trans (hdrain' 1 (by decide))).length_eq
  have hfewer : (([Accepted.zero, .one, .huge].filter fun vector =>
      !((Codec.ofOptions (.ofShape 2 1)).distance Accepted.huge.stored vector.stored).isNaN).map
        Accepted.id).length = 2 := by
    decide +kernel
  rw [hcommitted, hoptions, hfewer] at hlength
  exact absurd hlength (by decide)

end Index.Reachable

end Proximity

import Proximity.Proofs.Index.Searching
import Proximity.Proofs.Registration.Calls

set_option relaxedAutoImplicit false
set_option autoImplicit false

/-!
# Lengths of vectors

The lengths of the vectors of a field are fixed with its first vector, as they are given and as they
are stored. From then on a vector of another length is refused, and so is a query of another length,
also where the two stored forms would be equally long. Whatever is read from the containers of a
graph has the length that its header gives, so a distance is always one of two stored forms of one
length.

## Main definitions

* `Proximity.FieldGraph.Measured` — the vectors of an opened graph have the lengths of its header.
* `Proximity.FieldGraph.Compares` — a stored form is compared with forms of its own length.
* `Proximity.Registration.Misfits` — a vector of another length than those of the field.

## Main results

* `Proximity.FieldGraph.length_of_vector` — whatever can be read has the length of the header.
* `Proximity.FieldGraph.Rewires.exists_of_distanceTo` — the distances that linking takes.
* `Proximity.Registration.exists_check_misfit` — a vector of another length is refused.
* `Proximity.Index.Reachable.measured` — a session keeps to the lengths of its field.
* `Proximity.Index.Reachable.compares_one_length` — only forms of one length are compared.
-/

namespace Proximity

/-! ## What is read -/

/-- A slice has the length that was asked for. -/
lemma Run.length_of_slice? {run : Run} {offset length : Nat} {bytes : Bytes}
    (h : run.slice? offset length = some bytes) : bytes.length = length := by
  rw [slice?, Option.ite_none_right_eq_some] at h
  obtain ⟨hfits, hbytes⟩ := h
  rw [← Option.some.inj hbytes, Array.length_toList, Array.size_extract]
  omega

/-- The layout for vectors of a length is for vectors of this length. -/
lemma ContainerLayout.vectorLength_of_forVectorLength? {length : Nat} {layout : ContainerLayout}
    (h : forVectorLength? length = some layout) : layout.vectorLength = length := by
  simp only [forVectorLength?] at h
  split at h
  · cases h
  · rw [← Option.some.inj h]

namespace Container

variable {layout : ContainerLayout} {stored : Bytes}

/-- A container answers with vectors of the length of its layout. -/
lemma length_of_vector {container : Container} {place : SlotRef}
    (h : container.vector layout place = .ok stored) : stored.length = layout.vectorLength := by
  unfold vector at h
  split at h
  · split at h
    · next bytes hslice =>
      rw [← Except.ok.inj h]
      exact Run.length_of_slice? hslice
    · cases h
  · cases h

/-- All vectors of a container have the length of its layout.

**Proof sketch.** Induction on the ids; a slice has the length that was asked for. -/
lemma length_of_vectorsFrom {run : Run} {page : PageId} {ids : List VectorId} :
    ∀ {slot : Nat} {vectors : List (VectorId × Bytes)},
      vectorsFrom run layout page slot ids = .ok vectors →
        ∀ found ∈ vectors, found.2.length = layout.vectorLength := by
  induction ids with
  | nil =>
    intro slot vectors h
    rw [vectorsFrom, Except.ok.injEq] at h
    simp [← h]
  | cons id ids ih =>
    intro slot vectors h
    rw [vectorsFrom] at h
    split at h
    · cases h
    · next bytes hslice =>
      obtain ⟨others, hothers, h⟩ := Except.bind_eq_ok_iff.mp h
      rw [← Except.ok.inj h]
      intro found hfound
      rcases List.mem_cons.mp hfound with rfl | hfound
      · exact Run.length_of_slice? hslice
      · exact ih hothers found hfound

/-- **Whatever a scan finds** has the length of its layout.

**Proof sketch.** A vector that is found comes from one of the containers. -/
theorem length_of_scan {view : Snapshot} {name : String} {vectors : List (VectorId × Bytes)}
    (h : scan view name layout = .ok vectors) :
    ∀ found ∈ vectors, found.2.length = layout.vectorLength := by
  obtain ⟨parts, hparts, h⟩ := Except.bind_eq_ok_iff.mp h
  rw [← Except.ok.inj h]
  intro found hfound
  obtain ⟨part, hpart, hfound⟩ := List.mem_flatten.mp hfound
  obtain ⟨entry, _, hentry⟩ := Except.exists_of_mapM hparts part hpart
  simp only [vectorsOfEntry] at hentry
  split at hentry
  · cases hentry
  · obtain ⟨container, _, hvectors⟩ := Except.bind_eq_ok_iff.mp hentry
    exact length_of_vectorsFrom hvectors found hfound

end Container

namespace FieldGraph

variable {graph next : FieldGraph} {id other : VectorId} {stored query : Bytes} {distance : Single}

/-- **Whatever can be read from the containers of a graph** has the length that its header gives,
whatever the state of the records is.

**Proof sketch.** The layout follows from the header. -/
theorem length_of_vector (h : graph.vector id = .ok stored) :
    stored.length = graph.header.vectorLength := by
  obtain ⟨node, _, h⟩ := Except.bind_eq_ok_iff.mp h
  obtain ⟨layout, hlayout, h⟩ := Except.bind_eq_ok_iff.mp h
  obtain ⟨container, _, h⟩ := Except.bind_eq_ok_iff.mp h
  rw [Container.length_of_vector h]
  unfold FieldGraph.layout at hlayout
  split at hlayout
  · next found hfound =>
    rw [← Except.ok.inj hlayout]
    exact ContainerLayout.vectorLength_of_forVectorLength? hfound
  · cases hlayout

/-- A distance to a vector of a graph is the distance to what can be read of it. -/
lemma exists_of_distanceTo (h : graph.distanceTo query id = .ok distance) :
    ∃ stored, graph.vector id = .ok stored ∧ stored.length = graph.header.vectorLength ∧
      distance = graph.codec.distance query stored := by
  obtain ⟨stored, hstored, h⟩ := Except.bind_eq_ok_iff.mp h
  exact ⟨stored, hstored, length_of_vector hstored, (Except.ok.inj h).symm⟩

/-- **The distances that linking takes**: the form of a vector is compared with forms of its own
length in every graph through which linking leads. -/
theorem Rewires.exists_of_distanceTo (h : graph.Rewires next) (hquery : graph.vector id = .ok query)
    (hdistance : next.distanceTo query other = .ok distance) :
    ∃ stored, next.vector other = .ok stored ∧ stored.length = query.length ∧
      distance = next.codec.distance query stored := by
  obtain ⟨stored, hstored, hlength, rfl⟩ := FieldGraph.exists_of_distanceTo hdistance
  refine ⟨stored, hstored, ?_, rfl⟩
  rw [hlength, length_of_vector hquery, h.header]

end FieldGraph

/-! ## Lengths that are fixed -/

namespace FieldGraph

/-- **The vectors of an opened graph have the lengths of its header**, as they are given and as they
are stored; the former is the length that the options fix, if they fix one. The stored form of each
vector can be read, and no other can be. -/
structure Measured (graph : FieldGraph) (options : FieldOptions) (vectors : List Accepted) :
    Prop where
  encoded : ∀ vector ∈ vectors, (Codec.ofOptions options).encode vector.raw = .ok vector.stored
  rawLength : ∀ vector ∈ vectors, vector.raw.length = graph.header.rawLength
  fixedLength : vectors ≠ [] → 0 < options.vectorBytes →
    graph.header.rawLength = options.vectorBytes
  storedLength : ∀ vector ∈ vectors, vector.stored.length = graph.header.vectorLength
  vector_eq : ∀ vector ∈ vectors, graph.vector vector.id = .ok vector.stored
  exists_of_vector : ∀ id stored, graph.vector id = .ok stored →
    ∃ vector ∈ vectors, vector.id = id ∧ vector.stored = stored

/-- **A stored form is compared with forms of its own length**, both in an opened graph and by a
scan of the containers. -/
structure Compares (graph : FieldGraph) (view : Snapshot) (encoded : Bytes) : Prop where
  length_eq : encoded.length = graph.header.vectorLength
  distanceTo : ∀ id distance, graph.distanceTo encoded id = .ok distance →
    ∃ stored, graph.vector id = .ok stored ∧ stored.length = encoded.length ∧
      distance = graph.codec.distance encoded stored
  scan : ∀ layout vectors,
    ContainerLayout.forVectorLength? graph.header.vectorLength = some layout →
      Container.scan view graph.field layout = .ok vectors →
        ∀ found ∈ vectors, found.2.length = encoded.length

variable {graph : FieldGraph} {field : FieldRecord} {base contents : GraphContents}
  {vectors : List Accepted} {view : Snapshot} {encoded query : Bytes}

/-- The vectors of a sound graph have the lengths in its header.

**Proof sketch.** The lengths of a sound graph are those of its vectors, and what can be read has a
node, hence is one of them. -/
lemma Shows.measured (h : graph.Shows field base contents)
    (hsound : contents.Sound field vectors) : graph.Measured field.options vectors where
  encoded := hsound.encoded
  rawLength := by rw [h.header]; exact hsound.rawLength
  fixedLength hne hpos := by
    obtain ⟨vector, hvector⟩ := List.exists_mem_of_ne_nil vectors hne
    rw [h.header, ← hsound.rawLength vector hvector, hsound.fixedLength vector hvector hpos]
  storedLength := by rw [h.header]; exact hsound.storedLength
  vector_eq vector hvector := h.vector_eq (hsound.stores hvector)
  exists_of_vector id stored hstored := by
    obtain ⟨node, hnode, _⟩ := Except.bind_eq_ok_iff.mp hstored
    have hcontains := contains_of_node hnode
    rw [h.contains_eq] at hcontains
    have hid : id ∈ vectors.map Accepted.id := by
      by_contra hnot
      rw [hsound.node_eq_none_iff.mpr hnot] at hcontains
      cases hcontains
    obtain ⟨vector, hvector, rfl⟩ := List.mem_map.mp hid
    have hread := h.vector_eq (hsound.stores hvector)
    exact ⟨vector, hvector, rfl, Except.ok.inj (hread.symm.trans hstored)⟩

/-- A query of the length in the header is compared with vectors of its length. -/
lemma compares_of_length_eq (h : encoded.length = graph.header.vectorLength) :
    graph.Compares view encoded where
  length_eq := h
  distanceTo id distance hdistance := by
    obtain ⟨stored, hstored, hlength, rfl⟩ := exists_of_distanceTo hdistance
    exact ⟨stored, hstored, hlength.trans h.symm, rfl⟩
  scan layout vectors hlayout hscan found hfound := by
    rw [Container.length_of_scan hscan found hfound, h,
      ContainerLayout.vectorLength_of_forVectorLength? hlayout]

/-- A length is fixed where there are vectors. -/
lemma Measured.rawLength_pos (h : graph.Measured field.options vectors) (hne : vectors ≠ []) :
    0 < graph.header.rawLength := by
  obtain ⟨vector, hvector⟩ := List.exists_mem_of_ne_nil vectors hne
  obtain ⟨_, hcheck, _⟩ := Except.bind_eq_ok_iff.mp (h.encoded vector hvector)
  rw [← h.rawLength vector hvector]
  exact (Encoding.pos_of_check hcheck).1

/-- **A query that passes has the length of the vectors**, and so has its stored form.

**Proof sketch.** The check of the query compares its length with that in the header, which is
positive. Vectors of equal lengths have stored forms of equal lengths. -/
theorem Measured.exists_of_encodeQuery (h : graph.Measured field.options vectors)
    (hne : vectors ≠ [])
    (hquery : Search.encodeQuery field graph.header.rawLength query = .ok encoded) :
    (Codec.ofOptions field.options).encode query = .ok encoded ∧
      query.length = graph.header.rawLength ∧ encoded.length = graph.header.vectorLength := by
  simp only [Search.encodeQuery, Except.throw_eq_error, Except.error_bind, Except.pure_eq_ok]
    at hquery
  split_ifs at hquery with hlength
  have hpos := h.rawLength_pos hne
  have heq : query.length = graph.header.rawLength := by
    by_contra hne'
    exact hlength ⟨hpos, hne'⟩
  split at hquery
  · next found hencode =>
    obtain rfl := Except.ok.inj hquery
    refine ⟨hencode, heq, ?_⟩
    obtain ⟨vector, hvector⟩ := List.exists_mem_of_ne_nil vectors hne
    rw [← h.storedLength vector hvector, (length_encodeVector (h.encoded vector hvector)).1,
      (length_encodeVector hencode).1, heq, h.rawLength vector hvector]
  · cases hquery

end FieldGraph

/-! ## Queries -/

namespace Search

variable {view : Snapshot} {field : FieldRecord} {count breadth : Nat} {query : Bytes}
  {minSimilarity : Single} {stream : ResultStream} {header : GraphHeader}

/-- An exact search that answers has encoded its query. -/
lemma exists_encodeQuery_of_exactIn
    (h : exactIn view field count query minSimilarity = .ok stream)
    (hheader : GraphHeader.find view field.name = .ok header) :
    ∃ encoded, encodeQuery field header.rawLength query = .ok encoded := by
  obtain ⟨found, hfound, h⟩ := Except.bind_eq_ok_iff.mp h
  obtain rfl := Except.ok.inj (hheader.symm.trans hfound)
  obtain ⟨encoded, hencoded, _⟩ := Except.bind_eq_ok_iff.mp h
  exact ⟨encoded, hencoded⟩

/-- An approximate search that answers has encoded its query. -/
lemma exists_encodeQuery_of_approximateIn
    (h : approximateIn view field breadth query minSimilarity = .ok stream)
    (hheader : GraphHeader.find view field.name = .ok header) :
    ∃ encoded, encodeQuery field header.rawLength query = .ok encoded := by
  simp only [approximateIn, Except.throw_eq_error, hheader, Except.ok_bind] at h
  split at h
  · cases h
  split at h
  · exact exists_encodeQuery_of_exactIn h hheader
  · obtain ⟨encoded, hencoded, _⟩ := Except.bind_eq_ok_iff.mp h
    exact ⟨encoded, hencoded⟩

/-- **A query that one of the searches accepts** can be encoded. -/
theorem exists_encodeQuery {name : String} (hfind : Catalog.find view name = .ok field)
    (hheader : GraphHeader.find view field.name = .ok header)
    (h : (∃ count minSimilarity stream, exact view name count query minSimilarity = .ok stream) ∨
      ∃ breadth minSimilarity stream,
        approximate view name breadth query minSimilarity = .ok stream) :
    ∃ encoded, encodeQuery field header.rawLength query = .ok encoded := by
  rcases h with ⟨count, minSimilarity, stream, h⟩ | ⟨breadth, minSimilarity, stream, h⟩
  · rw [exact, hfind, Except.ok_bind] at h
    exact exists_encodeQuery_of_exactIn h hheader
  · rw [approximate, hfind, Except.ok_bind] at h
    exact exists_encodeQuery_of_approximateIn h hheader

end Search

/-! ## Sessions -/

namespace Registration

variable {session next : Registration} {vectors : List Accepted} {id : UInt64} {raw : Bytes}
  {level : Option Nat} {e : IndexError}

/-- **A vector of another length**: it does not have the length that the options fix, or that of the
vectors that are there. -/
def Misfits (session : Registration) (vectors : List Accepted) (length : Nat) : Prop :=
  (0 < session.field.options.vectorBytes ∧ length ≠ session.field.options.vectorBytes) ∨
    (vectors ≠ [] ∧ length ≠ session.graph.header.rawLength)

/-- **A vector of another length is refused**, whatever the length of its stored form.

**Proof sketch.** A vector that passes all checks has been compared with the lengths in the header,
and they would be its own. -/
theorem exists_check_misfit (h : session.graph.Measured session.field.options vectors)
    (hlength : session.Misfits vectors raw.length) (id : UInt64) :
    ∃ e, session.check id raw = .error e := by
  cases hcheck : session.check id raw with
  | error e => exact ⟨e, rfl⟩
  | ok stored =>
    exfalso
    cases hfailure : session.failure with
    | some failed =>
      rw [check_of_failure hfailure] at hcheck
      cases hcheck
    | none =>
      simp only [check, hfailure, Except.throw_eq_error] at hcheck
      split at hcheck
      swap
      · cases hcheck
      obtain ⟨encoded, _, hcheck⟩ := Except.bind_eq_ok_iff.mp hcheck
      obtain ⟨_, hlengths, _⟩ := Except.bind_eq_ok_iff.mp hcheck
      obtain ⟨hfixed, hraw, _⟩ := checkLengths_eq_ok_iff.mp hlengths
      rcases hlength with ⟨hpos, hne⟩ | ⟨hsome, hne⟩
      · exact hne (hfixed hpos)
      · exact hne (hraw (h.rawLength_pos hsome))

/-- A vector that does not pass the check changes nothing, at whatever level. -/
lemma registerAtLevel_of_check (h : session.check id raw = .error e) (level : Option Nat) :
    session.registerAtLevel id raw level = (session, .error e) := by
  cases level <;> simp only [registerAtLevel, register, h]

/-- A call whose vector does not pass the check changes nothing. -/
lemma perform_of_check {call : Call} (hgiven : call.given = .ok raw)
    (h : session.check call.id raw = .error e) : session.perform call = (session, .error e) := by
  rw [perform_eq, hgiven]
  simp only [registerRead, register, h]

/-- **A registration that fails leaves the graph of the session as it was**, and one that succeeds
leaves a session that has not failed.

**Proof sketch.** A check that fails leaves the session. After it the insertion succeeds, or it
fails and the graph from before is kept. -/
theorem cases_of_registerAtLevel (hlevel : ∀ l, level = some l → l ≤ maxLevel) :
    (∃ e, (session.registerAtLevel id raw level).2 = .error e ∧
        (session.registerAtLevel id raw level).1.graph = session.graph ∧
        (session.registerAtLevel id raw level).1.field = session.field) ∨
      (session.registerAtLevel id raw level).2 = .ok () ∧
        (session.registerAtLevel id raw level).1.failure = none := by
  cases hcheck : session.check id raw with
  | error e =>
    rw [registerAtLevel_of_check hcheck]
    exact .inl ⟨e, rfl, rfl, rfl⟩
  | ok stored =>
    have hfailure : session.failure = none := by
      by_contra hfailure
      obtain ⟨failed, hfailed⟩ := Option.ne_none_iff_exists'.mp hfailure
      rw [check_of_failure hfailed] at hcheck
      cases hcheck
    obtain ⟨generator, chosen, _, heq⟩ := Running.exists_registerAtLevel_eq hcheck hlevel
    rw [heq, registerAt]
    split
    · exact .inr ⟨rfl, hfailure⟩
    · exact .inl ⟨_, rfl, rfl, rfl⟩

/-- The vectors of a session have the lengths in the header of its graph. -/
lemma Running.measured {ledger : Ledger} {added : List Accepted}
    (h : session.Running ledger added) :
    session.graph.Measured session.field.options (ledger session.field.name ++ added) := by
  obtain ⟨base, contents, _, hshows, hsound, _, _⟩ := h.graph
  exact hshows.measured hsound

end Registration

/-! ## The index -/

namespace Index

variable {allowed : Operation → Prop} {index : Index} {session : Registration}

/-- **A session that has failed** was open before the latest operation, with the same graph and the
same vectors.

**Proof sketch.** One case for each operation. Only a registration leaves a session that has failed,
and it leaves its graph. -/
theorem exists_session_of_failure (hsound : index.Sound) {op : Operation} (hfits : op.Fits index)
    (hsession : (index.step op).session = some session) (hfailure : session.failure ≠ none) :
    ∃ before, index.session = some before ∧ session.graph = before.graph ∧
      session.field = before.field ∧ (index.step op).pending = index.pending ∧
      (index.step op).added = index.added := by
  revert hsession
  let P (later : Index) : Prop := later.session = some session →
    ∃ before, index.session = some before ∧ session.graph = before.graph ∧
      session.field = before.field ∧ later.pending = index.pending ∧ later.added = index.added
  have hsame : P index := fun h => ⟨session, h, rfl, rfl, rfl, rfl⟩
  cases op with
  | begin =>
    intro hsession
    have hopen : index.session = some session := by
      revert hsession
      unfold step
      cases index.store.beginWrite <;> exact id
    have heq : index.step .begin = index := by
      simp only [step, Store.beginWrite, (hsound.session session hopen).1]
    rw [heq]
    exact hsame hopen
  | create name options =>
    refine whenFree_cases (P := P) hsame fun txn _ _ => ?_
    cases Catalog.create txn name options with
    | error e => exact hsame
    | ok created => exact hsame
  | start config name =>
    refine whenFree_cases (P := P) hsame fun txn _ _ => ?_
    cases hstart : Registration.start config txn name with
    | error e => exact hsame
    | ok opened =>
      intro hsession
      obtain rfl := Option.some.inj hsession
      exact absurd (Registration.exists_of_start hstart).2.1 hfailure
  | reseed seed =>
    refine whenOpen_cases (P := P) hsame fun before hbefore hsession => ?_
    -- The seed is left out of sight, since comparing it would compute it.
    rw [Registration.withSeed] at hsession
    generalize Generator.ofSeed seed = generator at hsession
    rw [← Option.some.inj hsession]
    exact ⟨before, hbefore, rfl, rfl, rfl, rfl⟩
  | register id raw level =>
    refine whenOpen_cases (P := P) hsame fun before hbefore hsession => ?_
    have hcases := @Registration.cases_of_registerAtLevel before id raw level hfits.2
    unfold register at hsession ⊢
    generalize before.registerAtLevel id raw level = result at hsession hcases ⊢
    obtain ⟨next, answer⟩ := result
    rcases hcases with ⟨e, rfl, hgraph, hfield⟩ | ⟨rfl, hnone⟩
    · obtain rfl := Option.some.inj hsession
      exact ⟨before, hbefore, hgraph, hfield, rfl, rfl⟩
    · obtain rfl := Option.some.inj hsession
      exact absurd hnone hfailure
  | finish =>
    refine whenOpen_cases (P := P) hsame fun before _ hsession => ?_
    unfold finish at hsession
    split at hsession <;> cases hsession
  | discard =>
    exact whenOpen_cases (P := P) hsame fun _ _ hsession => by cases hsession
  | commit =>
    refine whenFree_cases (P := P) hsame fun _ _ _ => ?_
    cases index.store.commit? with
    | none => exact hsame
    | some committed => exact hsame
  | abandon =>
    exact whenFree_cases (P := P) hsame fun _ _ _ => hsame

/-- **A session keeps to the lengths of its field**, also when it has failed.

**Proof sketch.** Induction along the operations. A session that has not failed is running, and one
that has failed has the graph of the session before. -/
theorem Reachable.measured (h : Reachable allowed index) (hsession : index.session = some session) :
    session.graph.Measured session.field.options
      (index.pending session.field.name ++ index.added) := by
  induction h generalizing session with
  | empty => cases hsession
  | step h op _ hfits ih =>
    by_cases hfailure : session.failure = none
    · exact (((h.sound.step hfits).session session hsession).2 hfailure).measured
    · obtain ⟨before, hbefore, hgraph, hfield, hpending, hadded⟩ :=
        exists_session_of_failure h.sound hfits hsession hfailure
      rw [hgraph, hfield, hpending, hadded]
      exact ih hbefore

/-- **Only forms of one length are compared.** In every state that can be reached:

* the length of a stored form is determined by the two precisions and by the length of the given
  vector;
* in every field that a transaction sees, all vectors have the lengths of the header, and a query
  that one of the searches accepts is compared with stored forms of its own length only;
* so have the vectors of an open session, the new ones among them, and a vector of another length
  is refused in whatever form it is given, which changes nothing;
* the distances that linking takes are between stored forms of one length.

**Proof sketch.** What is read from a container is cut to the length that the header gives. The
given lengths decide which vectors and which queries have that length. -/
theorem Reachable.compares_one_length (h : Reachable allowed index) :
    (∀ source destination raw stored, encodeVector source destination raw = .ok stored →
      stored.length = encodedLength source destination raw.length) ∧
    (∀ view ledger name field, index.Sees view ledger → Catalog.find view name = .ok field →
      ∃ graph, FieldGraph.load view name (.ofOptions field.options) = .ok graph ∧
        graph.Measured field.options (ledger name) ∧
        ∀ query, ledger name ≠ [] →
          ((∃ count minSimilarity stream,
              Search.exact view name count query minSimilarity = .ok stream) ∨
            ∃ breadth minSimilarity stream,
              Search.approximate view name breadth query minSimilarity = .ok stream) →
            query.length = graph.header.rawLength ∧
              ∃ encoded, (Codec.ofOptions field.options).encode query = .ok encoded ∧
                graph.Compares view encoded) ∧
    (∀ session, index.session = some session →
      session.graph.Measured session.field.options
        (index.pending session.field.name ++ index.added) ∧
      ∀ raw, session.Misfits (index.pending session.field.name ++ index.added) raw.length →
        (∀ id level, ∃ e, session.registerAtLevel id raw level = (session, .error e)) ∧
        ∀ call : Registration.Call, call.given = .ok raw →
          ∃ e, session.perform call = (session, .error e)) ∧
    ∀ (graph next : FieldGraph) id query, graph.vector id = .ok query → graph.Rewires next →
      ∀ other distance, next.distanceTo query other = .ok distance →
        ∃ stored, next.vector other = .ok stored ∧ stored.length = query.length ∧
          distance = next.codec.distance query stored := by
  refine ⟨fun _ _ _ _ hstored => (length_encodeVector hstored).1, ?_, ?_,
    fun _ _ _ _ hquery hrewires _ _ hdistance => hrewires.exists_of_distanceTo hquery hdistance⟩
  · intro view ledger name field hsees hfind
    have hview := h.sound_view hsees
    obtain ⟨rfl, _⟩ := hview.valid hfind
    obtain ⟨contents, hholds, hsound, _⟩ := hview.graph field.name field hfind
    obtain ⟨graph, hload, hshows⟩ := FieldGraph.exists_load hholds
    have hmeasured := hshows.measured hsound
    refine ⟨graph, hload, hmeasured, fun query hne haccepted => ?_⟩
    obtain ⟨encoded, hquery⟩ := Search.exists_encodeQuery hfind hholds.header haccepted
    rw [← hshows.header] at hquery
    obtain ⟨hencode, hraw, hlength⟩ := hmeasured.exists_of_encodeQuery hne hquery
    exact ⟨hraw, encoded, hencode, FieldGraph.compares_of_length_eq hlength⟩
  · intro session hsession
    have hmeasured := h.measured hsession
    refine ⟨hmeasured, fun raw hlength => ⟨fun id level => ?_, fun call hgiven => ?_⟩⟩
    · obtain ⟨e, hcheck⟩ := Registration.exists_check_misfit hmeasured hlength id
      exact ⟨e, Registration.registerAtLevel_of_check hcheck level⟩
    · obtain ⟨e, hcheck⟩ := Registration.exists_check_misfit hmeasured hlength call.id
      exact ⟨e, Registration.perform_of_check hgiven hcheck⟩

/-- The options of a field that stores the signs of its vectors. -/
def signOptions : FieldOptions :=
  { FieldOptions.ofShape 2 1 with destination := .binary }

/-- The sign of the number zero, under the name one. -/
def signOfZero : Accepted :=
  ⟨⟨1⟩, [0, 0, 0, 0], [128]⟩

/-- A field that stores the signs of vectors of one number. The signs of two numbers would take one
byte as well, but a vector of two numbers is refused, and so is a query; a query of one number is
compared with one byte.

**Proof sketch.** The field is built by a run, and the general result is applied to its session and
to its readers. -/
theorem exists_refused_sign : encodedLength .single .binary 8 = encodedLength .single .binary 4 ∧
    (∃ session, (run (Operation.filling "v" signOptions signOfZero (some 0))).session =
        some session ∧
      ∃ e, session.perform (.raw 2 [0, 0, 0, 0, 0, 0, 0, 0]) = (session, .error e)) ∧
    ∃ graph,
      FieldGraph.load (run (Operation.founding "v" signOptions signOfZero (some 0))).store.beginRead
        "v" (.ofOptions signOptions) = .ok graph ∧
      graph.header.rawLength = 4 ∧
      graph.Compares (run (Operation.founding "v" signOptions signOfZero (some 0))).store.beginRead
        [128] := by
  have hname : FieldName.validate "v" = .ok () := by decide
  have hoptions : signOptions.Accepted := FieldOptions.validate_eq_ok_iff.mp (by decide)
  have hfits : signOptions.Fits := ⟨by decide, by decide, by decide⟩
  have hpacked : Encoding.packBits [true] = signOfZero.stored := by
    simp only [Encoding.packBits, List.take_nil, List.drop_nil]
    rfl
  have hencoded : (Codec.ofOptions signOptions).encode signOfZero.raw = .ok signOfZero.stored := by
    rw [← hpacked]
    rfl
  refine ⟨rfl, ?_, ?_⟩
  · obtain ⟨hreachable, session, hsession, hadded, hpending, _, hsignOptions⟩ :=
      @exists_run_filling "v" signOptions hname hoptions hfits signOfZero (by decide) hencoded
        (by decide) (by decide) (some 0) (by decide)
    obtain ⟨hmeasured, hmisfit⟩ := hreachable.compares_one_length.2.2.1 session hsession
    rw [hadded, hpending] at hmeasured hmisfit
    have hlength : session.graph.header.rawLength = 4 :=
      (hmeasured.rawLength signOfZero (by simp)).symm
    refine ⟨session, hsession, (hmisfit [0, 0, 0, 0, 0, 0, 0, 0] (.inr ⟨by simp, ?_⟩)).2 _ rfl⟩
    rw [hlength]
    decide
  · obtain ⟨hreachable, hcommitted, field, hfind, hfieldOptions⟩ :=
      @exists_run_founding "v" signOptions hname hoptions hfits signOfZero (by decide) hencoded
        (by decide) (by decide) (some 0) (by decide)
    obtain ⟨graph, hload, hmeasured, hqueries⟩ :=
      hreachable.compares_one_length.2.1 _ _ "v" field .reader hfind
    rw [hcommitted] at hmeasured hqueries
    have haccepts : field.Accepts [signOfZero] signOfZero.raw signOfZero.stored :=
      ⟨by rw [hfieldOptions]; exact hencoded, by simp⟩
    obtain ⟨stream, hexact, _⟩ := hreachable.exists_exact .reader hfind (hcommitted ▸ haccepts)
      (show Search.HasRoom _ 1 from fun _ => by decide) .zero
    obtain ⟨hraw, encoded, hencode, hcompares⟩ :=
      hqueries signOfZero.raw (by simp) (.inl ⟨1, .zero, stream, hexact⟩)
    rw [hfieldOptions] at hload hencode
    obtain rfl := Except.ok.inj (hencoded.symm.trans hencode)
    exact ⟨graph, hload, hraw.symm, hcompares⟩

end Index

end Proximity

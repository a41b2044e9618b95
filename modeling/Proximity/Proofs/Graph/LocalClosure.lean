import Proximity.Graph.FieldGraph
import Proximity.Proofs.Graph.BeamSearch
import Proximity.Proofs.Graph.Termination

set_option relaxedAutoImplicit false
set_option autoImplicit false

/-!
# Beam searches are locally closed

A graph may be damaged, and its lowest layer may fall into parts. Whatever a beam search returns is
then still as good as what it has met allows: a result with room to spare holds all that can be
reached from the entries, and the neighbors of a full result that are not in it come after its last
candidate. A search that returns nothing has met a node or a vector that cannot be read.

## Main definitions

* `Proximity.Layer.Reaches` — a walk leads from one of the entries to a vector.
* `Proximity.Candidate.Surpasses` — a candidate comes after the last one of a list.
* `Proximity.Layer.LocallyClosed` — the result of a beam search has nothing better beside it.

## Main results

* `Proximity.Layer.Finds.locallyClosed` — what a search finds is locally closed.
* `Proximity.FieldGraph.beamSearch_locallyClosed` — on every layer of every graph, a search finds a
  locally closed result, or a look-up of a vector that can be reached fails.
-/

namespace Proximity

/-- A candidate comes after the last one of a list. -/
def Candidate.Surpasses (found : List Candidate) (candidate : Candidate) : Prop :=
  ∃ last, found.getLast? = some last ∧ last.before candidate = true

namespace Layer

variable {ε : Type} {layer : Layer ε} {width : Nat} {entries found : List Candidate}

/-- A walk along neighbor lists leads from one of the entries to the vector. -/
def Reaches (layer : Layer ε) (entries : List Candidate) (id : VectorId) : Prop :=
  ∃ e ∈ entries, Relation.ReflTransGen layer.Edge e.id id

/-- The vectors that can be reached from some entries lead nowhere else. -/
lemma closed_reaches : layer.Closed {id | layer.Reaches entries id} := by
  rintro a ⟨e, he, hwalk⟩ b hab
  exact ⟨e, he, hwalk.tail hab⟩

/-- **A locally closed result** of a beam search: in ascending order, of a length that the width
allows, and reached from the entries. If there is room for more then nothing else can be reached,
and otherwise whatever lies beside it and is not in it comes after its last candidate. -/
structure LocallyClosed (layer : Layer ε) (width : Nat) (entries found : List Candidate) :
    Prop where
  ascending : Candidate.Ascending found
  measured : ∀ c ∈ found, layer.Measures c
  length_pos : 0 < found.length
  length_le : found.length ≤ max width 1
  reached : ∀ c ∈ found, layer.Reaches entries c.id
  complete : found.length < max width 1 → ∀ id, layer.Reaches entries id → ∃ c ∈ found, c.id = id
  entries_closed : found.length = max width 1 → ∀ e ∈ entries,
    e ∈ found ∨ Candidate.Surpasses found e
  neighbors_closed : found.length = max width 1 → ∀ a ∈ found, ∀ id, layer.Edge a.id id →
    ∃ c, layer.Measures c ∧ c.id = id ∧ (c ∈ found ∨ Candidate.Surpasses found c)

/-- **What a search finds is locally closed.**

**Proof sketch.** What a search has met is closed under neighbors as far as the result reaches, and
what it has left out comes after all of a full result, hence after the last candidate. -/
theorem Finds.locallyClosed
    (h : layer.Finds {id | layer.Reaches entries id} (max width 1) {v | ∃ e ∈ entries, e.id = v}
      found)
    (hsome : entries ≠ []) (hmeasured : ∀ e ∈ entries, layer.Measures e) :
    layer.LocallyClosed width entries found := by
  obtain ⟨first, hfirst⟩ := List.exists_mem_of_ne_nil entries hsome
  have hne : found ≠ [] :=
    h.ne_nil (by omega) (hmeasured first hfirst) ⟨first, hfirst, rfl⟩
  have hafter : ∀ {c : Candidate}, (∀ r ∈ found, r.before c = true) →
      Candidate.Surpasses found c := fun hc =>
    ⟨found.getLast hne, List.getLast?_eq_some_getLast hne, hc _ (List.getLast_mem hne)⟩
  exact {
    ascending := h.ascending
    measured := h.measured
    length_pos := List.length_pos_of_ne_nil hne
    length_le := h.length_le
    reached := h.mem
    complete := by
      rintro hlt id ⟨e, he, hwalk⟩
      exact h.mem_of_reachable hlt (hmeasured e he) ⟨e, he, rfl⟩ hwalk
    entries_closed := by
      intro _ e he
      exact (h.covered e (hmeasured e he) ⟨e, he, rfl⟩).imp_right fun hbeyond => hafter hbeyond.2
    neighbors_closed := by
      intro _ a ha id hedge
      obtain ⟨c, hc, rfl⟩ := h.edge_measured a ha id hedge
      exact ⟨c, hc, rfl, (h.closed a ha c hc hedge).imp_right fun hbeyond => hafter hbeyond.2⟩ }

end Layer

namespace FieldGraph

/-- **A beam search is locally closed**, on every layer of every graph and for every query. It
returns nothing only if the neighbors or the vector of a node cannot be read that a walk from the
entries leads to. -/
theorem beamSearch_locallyClosed (graph : FieldGraph) (query : Bytes) (layer width : Nat)
    {entries : List Candidate} (hsome : entries ≠ [])
    (hmeasured : ∀ e ∈ entries, (graph.layer query layer).Measures e) :
    ((graph.layer query layer).beamSearch width entries).Ends
      ((graph.layer query layer).Fails {id | (graph.layer query layer).Reaches entries id})
      ((graph.layer query layer).LocallyClosed width entries) := by
  have hentries : ∀ e ∈ entries, e.id ∈ {id | (graph.layer query layer).Reaches entries id} ∧
      (graph.layer query layer).Measures e :=
    fun e he => ⟨⟨e, he, .refl⟩, hmeasured e he⟩
  exact (Layer.ends_beamSearch Layer.closed_reaches hentries width).imp (fun _ he => he)
    fun found hfinds => hfinds.locallyClosed hsome hmeasured

/-- A graph in two parts, with a vector of one byte for each node: a tree of five nodes, and a sixth
one with the nearest vector of all to `0`. -/
def twoParts : FieldGraph where
  field := "parts"
  codec := ⟨.binary, .binary, .cosine⟩
  header := { GraphHeader.blank with nodeCount := 6, rawLength := 1, vectorLength := 1 }
  nodes := Std.TreeMap.empty
    |>.insert ⟨1⟩ (.ok ⟨0, ⟨⟨1⟩, 0⟩, [[⟨2⟩, ⟨5⟩]], [none]⟩)
    |>.insert ⟨2⟩ (.ok ⟨0, ⟨⟨1⟩, 1⟩, [[⟨1⟩, ⟨3⟩, ⟨4⟩]], [some ⟨1⟩]⟩)
    |>.insert ⟨3⟩ (.ok ⟨0, ⟨⟨1⟩, 2⟩, [[⟨2⟩]], [some ⟨2⟩]⟩)
    |>.insert ⟨4⟩ (.ok ⟨0, ⟨⟨1⟩, 3⟩, [[⟨2⟩]], [some ⟨2⟩]⟩)
    |>.insert ⟨5⟩ (.ok ⟨0, ⟨⟨1⟩, 4⟩, [[⟨1⟩]], [some ⟨1⟩]⟩)
    |>.insert ⟨6⟩ (.ok ⟨0, ⟨⟨1⟩, 5⟩, [[]], [none]⟩)
  containers := Std.TreeMap.empty.insert ⟨1⟩
    (.ok ⟨[⟨1⟩, ⟨2⟩, ⟨3⟩, ⟨4⟩, ⟨5⟩, ⟨6⟩], #[0x0f, 0x07, 0x01, 0x03, 0xff, 0x00]⟩)
  changedNodes := ∅
  changedContainers := ∅

/-- A search in one of two parts of a graph, with room for two. The second node comes in beside the
first one, and the fifth one is too far; the third evicts the first, and the fourth the second. -/
theorem beamSearch_locallyClosed_twoParts : ∃ found,
    (twoParts.layer [0] 0).Measures ⟨⟨0x40800000⟩, ⟨1⟩⟩ ∧
      (twoParts.layer [0] 0).beamSearch 2 [⟨⟨0x40800000⟩, ⟨1⟩⟩] = .ok found ∧
      found = [⟨.one, ⟨3⟩⟩, ⟨⟨0x40000000⟩, ⟨4⟩⟩] ∧
      (twoParts.layer [0] 0).LocallyClosed 2 [⟨⟨0x40800000⟩, ⟨1⟩⟩] found := by
  have hmeasures : (twoParts.layer [0] 0).Measures ⟨⟨0x40800000⟩, ⟨1⟩⟩ := rfl
  have hfound : (twoParts.layer [0] 0).beamSearch 2 [⟨⟨0x40800000⟩, ⟨1⟩⟩] =
      .ok [⟨.one, ⟨3⟩⟩, ⟨⟨0x40000000⟩, ⟨4⟩⟩] := by
    have hnodes : (twoParts.layer [0] 0).nodes.length = 6 := rfl
    have hends := Layer.endsWithin_beamSearch (twoParts.layer [0] 0) 2
      [⟨⟨0x40800000⟩, ⟨1⟩⟩] 8 (by rw [hnodes]; decide)
    exact Option.some.inj (hends.symm.trans rfl)
  have hends := beamSearch_locallyClosed twoParts [0] 0 2
    (List.cons_ne_nil ⟨⟨0x40800000⟩, ⟨1⟩⟩ []) fun e he => List.mem_singleton.mp he ▸ hmeasures
  rw [hfound] at hends
  exact ⟨_, hmeasures, hfound, rfl, hends.of_ok⟩

end FieldGraph

end Proximity

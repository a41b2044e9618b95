import Proximity.Proofs.Index.Searching

set_option relaxedAutoImplicit false
set_option autoImplicit false

/-!
# Searching with more breadth

The approximate search first collects candidates, from the graph or from a scan of all vectors, and
then leaves out those that are not similar enough. With more breadth it never collects anything
worse, also where it passes from the graph to the scan, as long as there can be room for what the
scan is told to keep.

## Main definitions

* `Proximity.Search.collect` — the candidates before any are left out.

## Main results

* `Proximity.Search.approximateIn_eq` — the approximate search collects, and then leaves out.
* `Proximity.Index.Reachable.improves_of_breadth_le` — more breadth never collects anything worse,
  if there can be room.
* `Proximity.Index.Reachable.not_forall_improves` — without room it collects nothing.
-/

namespace Proximity

namespace Search

/-- The candidates that the approximate search collects, before those that are not similar enough
are left out. -/
def collect (view : Snapshot) (field : FieldRecord) (breadth : Nat) (query : Bytes) :
    Except IndexError (List Candidate) := do
  if breadth = 0 then throw (.invalidQuery "candidate breadth must be positive")
  let header ← GraphHeader.find view field.name
  let encoded ← encodeQuery field header.rawLength query
  if header.nodeCount = 0 then return []
  else if header.nodeCount ≤ breadth then
    scanNearest view field header.vectorLength breadth encoded
  else
    let graph ← FieldGraph.load view field.name (.ofOptions field.options)
    graph.search encoded breadth

/-- **The approximate search collects candidates and leaves out those that are not similar
enough.**

**Proof sketch.** Both sides are written out. They differ in whether what is not similar enough is
left out before or after the choice of the search. -/
theorem approximateIn_eq (view : Snapshot) (field : FieldRecord) (breadth : Nat) (query : Bytes)
    (minSimilarity : Single) :
    approximateIn view field breadth query minSimilarity = (do
      let found ← collect view field breadth query
      let header ← GraphHeader.find view field.name
      return streamOf (.ofOptions field.options) header.vectorLength
        (similar (.ofOptions field.options) header.vectorLength minSimilarity found)) := by
  unfold approximateIn collect exactIn
  simp only [Except.throw_eq_error, Except.pure_eq_ok]
  split_ifs with hbreadth
  · rfl
  · rcases hheader : GraphHeader.find view field.name with e | header
    · rfl
    simp only [Except.ok_bind]
    rcases hencode : encodeQuery field header.rawLength query with e | encoded
    · split_ifs <;> rfl
    simp only [Except.ok_bind]
    rcases Nat.eq_zero_or_pos header.nodeCount with hzero | hpos
    · simp [hzero]
    · by_cases hwide : header.nodeCount ≤ breadth
      · have hcount : 0 < header.nodeCount ∧ 0 < breadth := ⟨hpos, Nat.pos_of_ne_zero hbreadth⟩
        rw [if_pos ⟨hpos, hwide⟩, if_pos hcount, if_neg (Nat.ne_of_gt hpos), if_pos hwide]
      · rw [if_neg fun hboth => hwide hboth.2, if_pos hpos, if_neg (Nat.ne_of_gt hpos),
          if_neg hwide]
        cases FieldGraph.load view field.name (.ofOptions field.options) <;> rfl

end Search

namespace Snapshot.Sound

variable {view : Snapshot} {ledger : Ledger} {name : String} {field : FieldRecord}
  {query encoded : Bytes}

/-- **What is collected is what the search in the graph finds**, also where all vectors are scanned
instead and there is room.

**Proof sketch.** If no more candidates are asked for than there are vectors both are the search in
the graph. Otherwise the search in the graph finds all vectors, and these are what the scan
finds. -/
theorem collect_eq (h : view.Sound ledger) (hfind : Catalog.find view name = .ok field)
    (haccepts : field.Accepts (ledger name) query encoded) {breadth : Nat} (hpos : 0 < breadth)
    (hroom : (ledger name).length ≤ breadth → Search.HasRoom (ledger name) breadth) :
    ∃ graph found, FieldGraph.load view name (.ofOptions field.options) = .ok graph ∧
      graph.search encoded breadth = .ok found ∧
      Search.collect view field breadth query = .ok found := by
  obtain ⟨rfl, _⟩ := h.valid hfind
  obtain ⟨contents, hholds, hsound, _⟩ := h.graph field.name field hfind
  obtain ⟨graph, found, hload, hsearch, hascending, hnodup, hlength, hsub⟩ :=
    h.exists_search hfind encoded breadth
  refine ⟨graph, found, hload, hsearch, ?_⟩
  simp only [Search.collect, if_neg (Nat.ne_of_gt hpos), hholds.header, Except.ok_bind,
    hsound.encodeQuery_eq_ok haccepts, hsound.nodeCount]
  split_ifs with hnone hwide
  · have hnil : found = [] := List.length_eq_zero_iff.mp (by omega)
    rw [hnil]
    rfl
  · have hne : ledger field.name ≠ [] := fun hnil => hnone (by rw [hnil]; rfl)
    rw [h.scanNearest_eq hfind hholds hsound hne, Search.checkRoom_eq_ok (hroom hwide hne),
      Except.ok_bind, eq_nearest hsound.nodup hascending hnodup hsub (by omega) hwide,
      Except.pure_eq_ok]
  · rw [hload, Except.ok_bind, hsearch]

/-- Nothing is collected where all vectors are scanned and there is no room. -/
lemma collect_eq_error (h : view.Sound ledger) (hfind : Catalog.find view name = .ok field)
    (haccepts : field.Accepts (ledger name) query encoded) {breadth : Nat}
    (hwide : (ledger name).length ≤ breadth) (hroom : ¬Search.HasRoom (ledger name) breadth)
    (hword : breadth + 1 < UInt64.size) :
    Search.collect view field breadth query = .error (.roomOverflow (breadth + 1)) := by
  obtain ⟨rfl, _⟩ := h.valid hfind
  obtain ⟨contents, hholds, hsound, _⟩ := h.graph field.name field hfind
  obtain ⟨hne, hmany⟩ := Classical.not_imp.mp hroom
  have hsome : (ledger field.name).length ≠ 0 := fun hzero => hne (List.length_eq_zero_iff.mp hzero)
  simp only [Search.collect, if_neg (show breadth ≠ 0 by omega), hholds.header, Except.ok_bind,
    hsound.encodeQuery_eq_ok haccepts, hsound.nodeCount]
  rw [if_neg hsome, if_pos hwide, h.scanNearest_eq hfind hholds hsound hne,
    Search.checkRoom_eq_error (Nat.le_of_not_lt hmany) hword, Except.error_bind]

end Snapshot.Sound

namespace Index.Reachable

variable {allowed : Operation → Prop} {index : Index} {view : Snapshot} {ledger : Ledger}
  {name : String} {field : FieldRecord} {query encoded : Bytes}

/-- What the approximate search answers is what has been collected, as far as it is similar
enough. -/
lemma exists_collect (h : Reachable allowed index) (hsees : index.Sees view ledger)
    (hfind : Catalog.find view name = .ok field)
    (haccepts : field.Accepts (ledger name) query encoded) {breadth : Nat} (hpos : 0 < breadth)
    (hroom : (ledger name).length ≤ breadth → Search.HasRoom (ledger name) breadth) :
    ∃ graph found, FieldGraph.load view name (.ofOptions field.options) = .ok graph ∧
      graph.search encoded breadth = .ok found ∧
      Search.collect view field breadth query = .ok found ∧
      ∀ minSimilarity, ∃ stream,
        Search.approximate view name breadth query minSimilarity = .ok stream ∧ stream.results =
          Search.similar (.ofOptions field.options) encoded.length minSimilarity found := by
  have hview := h.sound_view hsees
  obtain ⟨rfl, _⟩ := hview.valid hfind
  obtain ⟨graph, found, hload, hsearch, hcollect⟩ := hview.collect_eq hfind haccepts hpos hroom
  refine ⟨graph, found, hload, hsearch, hcollect, fun minSimilarity => ?_⟩
  obtain ⟨graph', found', vectorLength, hload', hsearch', hresult⟩ :=
    hview.exists_approximateIn hfind haccepts hpos hroom minSimilarity
  obtain rfl := Except.ok.inj (hload.symm.trans hload')
  obtain rfl := Except.ok.inj (hsearch.symm.trans hsearch')
  exact ⟨_, by rw [Search.approximate, hfind, Except.ok_bind, hresult], rfl⟩

/-- **More breadth never collects anything worse.** Of two searches for the same query the one with
more breadth collects at least as many candidates, and at no place of the shorter list does its
candidate come after the one there. What each of the searches answers is what it has collected, as
far as it is similar enough. If the greater breadth is one at which all vectors are scanned then
there has to be room for as many candidates; otherwise the search with more breadth breaks down.

**Proof sketch.** What is collected is what the search in the graph finds, for either breadth. The
two searches there descend to the same node and look at the same vectors until the narrow one
stops. -/
theorem improves_of_breadth_le (h : Reachable allowed index) (hsees : index.Sees view ledger)
    (hfind : Catalog.find view name = .ok field)
    (haccepts : field.Accepts (ledger name) query encoded) {narrow wide : Nat} (hpos : 0 < narrow)
    (hle : narrow ≤ wide) :
    (((ledger name).length ≤ wide → Search.HasRoom (ledger name) wide) →
      ∃ few many, Search.collect view field narrow query = .ok few ∧
        Search.collect view field wide query = .ok many ∧
        few.length ≤ many.length ∧
        (∀ (i : Nat) (b : Candidate), few[i]? = some b →
          ∃ a, many[i]? = some a ∧ a.notAfter b = true) ∧
        ∀ minSimilarity,
          (∃ stream, Search.approximate view name narrow query minSimilarity = .ok stream ∧
            stream.results =
              Search.similar (.ofOptions field.options) encoded.length minSimilarity few) ∧
          ∃ stream, Search.approximate view name wide query minSimilarity = .ok stream ∧
            stream.results =
              Search.similar (.ofOptions field.options) encoded.length minSimilarity many) ∧
    ((ledger name).length ≤ wide → ¬Search.HasRoom (ledger name) wide → wide + 1 < UInt64.size →
      Search.collect view field wide query = .error (.roomOverflow (wide + 1))) := by
  have hview := h.sound_view hsees
  refine ⟨fun hroom => ?_, hview.collect_eq_error hfind haccepts⟩
  obtain ⟨graph, few, hload, hfew, hcollect, hanswer⟩ :=
    h.exists_collect hsees hfind haccepts hpos fun hscanned hne =>
      Nat.lt_of_le_of_lt hle (hroom (hscanned.trans hle) hne)
  obtain ⟨graph', many, hload', hmany, hcollect', hanswer'⟩ :=
    h.exists_collect hsees hfind haccepts (Nat.lt_of_lt_of_le hpos hle) hroom
  obtain rfl := Except.ok.inj (hload.symm.trans hload')
  obtain ⟨rfl, _⟩ := hview.valid hfind
  obtain ⟨contents, hholds, hsound, _⟩ := hview.graph field.name field hfind
  obtain ⟨opened, hopen, hshows⟩ := FieldGraph.exists_load hholds
  obtain rfl := Except.ok.inj (hload.symm.trans hopen)
  have himproves :=
    hshows.search_improves hsound.linked hsound.members_subset_stored hle hfew hmany
  exact ⟨few, many, hcollect, hcollect', himproves.length_le, himproves, fun minSimilarity =>
    ⟨hanswer minSimilarity, hanswer' minSimilarity⟩⟩

/-- Two searches on four vectors: the narrow one looks in the graph, and the wide one scans. -/
theorem exists_improves_spread : ∃ (view : Snapshot) (field : FieldRecord)
    (few many : List Candidate), Catalog.find view "v" = .ok field ∧
      Search.collect view field 3 [0, 0, 0, 0] = .ok few ∧
      Search.collect view field 9 [0, 0, 0, 0] = .ok many ∧ few.length ≤ many.length ∧
      ∀ (i : Nat) (b : Candidate), few[i]? = some b → ∃ a, many[i]? = some a ∧
        a.notAfter b = true := by
  obtain ⟨index, field, _, hreachable, hcommitted, hrests, _, hoptions⟩ := exists_spread
  have haccepts : field.Accepts (index.committed "v") [0, 0, 0, 0] [0, 0, 0, 0] :=
    accepts_spread hoptions (.of_eq hcommitted)
  obtain ⟨few, many, hfew, hmany, hlength, himproves, _⟩ :=
    (hreachable.improves_of_breadth_le .reader hrests.find haccepts (show 0 < 3 by decide)
      (show 3 ≤ 9 by decide)).1 fun _ _ => by decide
  exact ⟨_, field, few, many, hrests.find, hfew, hmany, hlength, himproves⟩

/-- **More breadth does not always collect something**: a search in four vectors with a breadth of
three finds some, and with a breadth of `2 ^ 60` it breaks down.

**Proof sketch.** With a breadth of `2 ^ 60` all vectors are scanned, for which there is no room. -/
theorem not_forall_improves : ¬∀ {index : Index} {view : Snapshot} {ledger : Ledger} {name : String}
    {field : FieldRecord} {query encoded : Bytes}, Reachable Operation.IsShort index →
      index.Sees view ledger → Catalog.find view name = .ok field →
        field.Accepts (ledger name) query encoded → ∀ narrow wide, 0 < narrow → narrow ≤ wide →
          wide < UInt64.size → ∃ few many,
            Search.collect view field narrow query = .ok few ∧
            Search.collect view field wide query = .ok many ∧ few.length ≤ many.length := by
  intro hall
  obtain ⟨index, field, _, hreachable, hcommitted, hrests, _, hoptions⟩ := exists_spread
  have haccepts : field.Accepts (index.committed "v") [0, 0, 0, 0] [0, 0, 0, 0] :=
    accepts_spread hoptions (.of_eq hcommitted)
  have hwide : (index.committed "v").length ≤ 2 ^ 60 := by
    rw [hcommitted]
    decide
  obtain ⟨_, many, _, hmany, _⟩ := hall hreachable .reader hrests.find haccepts 3 (2 ^ 60)
    (by decide) (by decide) (by decide)
  rw [(hreachable.sound_view .reader).collect_eq_error hrests.find haccepts hwide
    (not_hasRoom_spread hcommitted) (by decide)] at hmany
  cases hmany

end Index.Reachable

end Proximity

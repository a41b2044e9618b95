import Proximity.Proofs.Query.Narrowing

set_option relaxedAutoImplicit false
set_option autoImplicit false

/-!
# Queries as sets of documents

A query is put together from posting lists and searches by boosts and intersections, and it stands
for a set of documents: those of a leaf, unchanged by boosts, and what all parts of an intersection
have in common. Whatever is asked of the query in whatever order, its portions hand out exactly this
set, in strictly ascending order and in pieces of any size, and it narrows every list to the members
of this set. So the order of the parts of an intersection does not matter, nor how they are nested.

## Main definitions

* `Proximity.QueryTree` — how a query is put together.
* `Proximity.QueryTree.Denotes` — the set that it stands for.
* `Proximity.QueryTree.documents` — this set in ascending order.
* `Proximity.QueryTree.Rearranges` — trees that differ only in the order and the nesting of parts.
* `Proximity.Query.askAll`, `Proximity.Transcript` — some calls, and how they were answered.
* `Proximity.Query.Transcribes` — what calls do to a query.

## Main results

* `Proximity.QueryTree.fresh_build` — a new query matches its set.
* `Proximity.QueryTree.mem_documents` — the documents are the set.
* `Proximity.QueryTree.Rearranges.denotes_iff` — the order and the nesting do not matter.
* `Proximity.Query.transcribes_askAll` — any calls.
* `Proximity.QueryTree.answers_of_askAll` — whatever is asked, a query stands for its set.
-/

namespace Proximity

/-! ## Trees -/

/-- How a query is put together. -/
inductive QueryTree
  /-- A posting list for some scored documents. -/
  | posting (entries : List Scored)
  /-- A search, of which some results may have been handed out before. -/
  | vector (search : ResultStream)
  /-- A query whose scores are multiplied by a factor. -/
  | boost (factor : Single) (inner : QueryTree)
  /-- The intersection of one or more queries. -/
  | all (first : QueryTree) (others : List QueryTree)

namespace QueryTree

mutual

/-- The query. -/
def build : QueryTree → Query
  | posting entries => .posting (.ofScored entries)
  | vector search => .vector (.composed search)
  | boost factor inner => .boost factor inner.build
  | all first others => .ofParts (first.build :: buildAll others)

/-- The queries. -/
def buildAll : List QueryTree → List Query
  | [] => []
  | tree :: trees => tree.build :: buildAll trees

end

mutual

/-- **The set that a query stands for**: the documents of a posting list, those that a search has
not handed out yet, and what all parts of an intersection have in common. -/
def Denotes : QueryTree → UInt64 → Prop
  | posting entries, id => id ∈ entries.map Prod.fst
  | vector search, id => id ∈ search.pending.map fun candidate => candidate.id.raw
  | boost _ inner, id => inner.Denotes id
  | all first others, id => first.Denotes id ∧ AllDenote others id

/-- What some queries have in common. -/
def AllDenote : List QueryTree → UInt64 → Prop
  | [], _ => True
  | tree :: trees, id => tree.Denotes id ∧ AllDenote trees id

end

/-- A document matches all trees of a list if it matches each of them. -/
lemma allDenote_iff {trees : List QueryTree} {id : UInt64} :
    AllDenote trees id ↔ ∀ tree ∈ trees, tree.Denotes id := by
  induction trees with
  | nil => simp [AllDenote]
  | cons tree trees ih => simp [AllDenote, ih]

/-- The set of an intersection. -/
lemma denotes_all_iff {first : QueryTree} {others : List QueryTree} {id : UInt64} :
    (all first others).Denotes id ↔ ∀ tree ∈ first :: others, tree.Denotes id := by
  rw [Denotes, allDenote_iff, List.forall_mem_cons]

end QueryTree

/-! ## New queries -/

namespace Query

/-- **A query that has just been put together** has everything that it matches ahead. -/
structure Fresh (query : Query) : Prop where
  sound : query.Sound
  mem_lead : ∀ id, query.admits id = true → id ∈ query.lead

/-- One of the parts leads.

**Proof sketch.** By induction on the parts: the first one with a bound leads, and if none has one
the first of all does. -/
lemma exists_ofParts {parts : List Query} (hne : parts ≠ []) : ∃ before leader behind,
    parts = before ++ leader :: behind ∧ ofParts parts = both before leader behind := by
  have hsplit : ∀ {parts before behind : List Query} {leader : Query},
      splitAtBounded parts = some (before, leader, behind) →
        parts = before ++ leader :: behind := by
    intro parts
    induction parts with
    | nil =>
      intro before behind leader h
      cases h
    | cons part parts ih =>
      intro before behind leader h
      rw [splitAtBounded] at h
      split at h
      · obtain ⟨rfl, rfl, rfl⟩ := Prod.mk.inj (Option.some.inj h)
        rfl
      · obtain ⟨⟨before', leader', behind'⟩, hfound, heq⟩ := Option.map_eq_some_iff.mp h
        obtain ⟨rfl, rfl, rfl⟩ := Prod.mk.inj heq
        rw [ih hfound]
        rfl
  cases hfound : splitAtBounded parts with
  | some found =>
    obtain ⟨before, leader, behind⟩ := found
    refine ⟨before, leader, behind, hsplit hfound, ?_⟩
    simp only [ofParts, hfound]
  | none =>
    cases parts with
    | nil => exact absurd rfl hne
    | cons leader behind =>
      refine ⟨[], leader, behind, rfl, ?_⟩
      simp only [ofParts, hfound]

/-- **An intersection of new queries** is a new query, which matches what all parts match.

**Proof sketch.** The parts are those before the leader, the leader, and those behind it. What is
ahead is what the leader has ahead and all others match. -/
theorem fresh_ofParts {parts : List Query} (hne : parts ≠ []) (h : ∀ part ∈ parts, part.Fresh) :
    (ofParts parts).Fresh ∧
      ∀ id, (ofParts parts).admits id = true ↔ ∀ part ∈ parts, part.admits id = true := by
  obtain ⟨before, leader, behind, hparts, hquery⟩ := exists_ofParts hne
  have hadmits : ∀ id, (ofParts parts).admits id = true ↔
      ∀ part ∈ parts, part.admits id = true := by
    intro id
    rw [hquery, hparts, admits, Bool.and_eq_true, Bool.and_eq_true, admitsAll_eq, admitsAll_eq,
      List.all_eq_true, List.all_eq_true, List.forall_mem_append, List.forall_mem_cons, and_assoc]
  have hleader : leader ∈ parts := by rw [hparts]; simp
  refine ⟨⟨?_, fun id hid => ?_⟩, hadmits⟩
  · rw [hquery]
    refine ⟨allSound_iff.mpr fun part hpart => ?_, (h leader hleader).sound,
      allSound_iff.mpr fun part hpart => ?_⟩
    · exact (h part (by rw [hparts]; simp [hpart])).sound
    · exact (h part (by rw [hparts]; simp [hpart])).sound
  · rw [hquery]
    exact (h leader hleader).mem_lead id ((hadmits id).mp hid leader hleader)

end Query

namespace QueryTree

mutual

/-- **A new query matches its set.** -/
theorem fresh_build : ∀ tree : QueryTree,
    tree.build.Fresh ∧ ∀ id, tree.build.admits id = true ↔ tree.Denotes id
  | posting entries => by
    refine ⟨⟨Posting.pairwise_ids_ofScored entries, fun id hid => ?_⟩, fun id => ?_⟩
    · exact List.contains_iff_mem.mp hid
    · rw [build, Query.admits, List.contains_iff_mem, Posting.mem_ids_ofScored]
      rfl
  | vector search => by
    obtain ⟨hsound, hupcoming, hmem⟩ := VectorClause.sound_composed search
    refine ⟨⟨hsound, fun id hid => ?_⟩, fun id => ?_⟩
    · rw [build, Query.lead, hupcoming]
      exact List.contains_iff_mem.mp hid
    · rw [build, Query.admits, List.contains_iff_mem, hmem]
      rfl
  | boost factor inner => by
    obtain ⟨hfresh, hadmits⟩ := fresh_build inner
    exact ⟨⟨hfresh.sound, hfresh.mem_lead⟩, hadmits⟩
  | all first others => by
    obtain ⟨hfirst, hfirstAdmits⟩ := fresh_build first
    obtain ⟨hothers, hothersAdmits⟩ := fresh_buildAll others
    obtain ⟨hfresh, hadmits⟩ := Query.fresh_ofParts (List.cons_ne_nil first.build (buildAll others))
      (List.forall_mem_cons.mpr ⟨hfirst, hothers⟩)
    refine ⟨hfresh, fun id => ?_⟩
    rw [build, hadmits, List.forall_mem_cons, hfirstAdmits, hothersAdmits]
    rfl

/-- The parts that are built from trees are fresh, and they admit together what the trees denote
together. -/
lemma fresh_buildAll : ∀ trees : List QueryTree, (∀ part ∈ buildAll trees, part.Fresh) ∧
    ∀ id, (∀ part ∈ buildAll trees, part.admits id = true) ↔ AllDenote trees id
  | [] => ⟨by simp [buildAll], by simp [buildAll, AllDenote]⟩
  | tree :: trees => by
    obtain ⟨hfresh, hadmits⟩ := fresh_build tree
    obtain ⟨hothers, hothersAdmits⟩ := fresh_buildAll trees
    refine ⟨List.forall_mem_cons.mpr ⟨hfresh, hothers⟩, fun id => ?_⟩
    rw [buildAll, List.forall_mem_cons, hadmits, hothersAdmits]
    rfl

end

/-- **The documents of a query** in ascending order: what the new query has ahead. -/
def documents (tree : QueryTree) : List UInt64 :=
  tree.build.upcoming

variable {tree other : QueryTree} {id : UInt64}

/-- The documents of a tree come in ascending order, each of them once. -/
lemma pairwise_documents (tree : QueryTree) : tree.documents.Pairwise (· < ·) :=
  Query.pairwise_upcoming (fresh_build tree).1.sound

/-- **The documents of a query** are the set that it stands for. -/
theorem mem_documents : id ∈ tree.documents ↔ tree.Denotes id := by
  obtain ⟨hfresh, hadmits⟩ := fresh_build tree
  rw [documents, Query.upcoming, List.mem_filter, hadmits]
  exact ⟨fun h => h.2, fun h => ⟨hfresh.mem_lead id ((hadmits id).mpr h), h⟩⟩

/-- Two queries that stand for the same set have the same documents in the same order. -/
lemma documents_congr (h : ∀ id, tree.Denotes id ↔ other.Denotes id) :
    tree.documents = other.documents := by
  have hnodup : ∀ tree : QueryTree, tree.documents.Nodup := fun tree =>
    tree.pairwise_documents.imp UInt64.ne_of_lt
  refine List.Perm.eq_of_pairwise (fun a b _ _ hab hba => absurd hab (UInt64.lt_asymm hba))
    tree.pairwise_documents other.pairwise_documents ?_
  refine (List.perm_ext_iff_of_nodup (hnodup tree) (hnodup other)).mpr fun id => ?_
  rw [mem_documents, mem_documents, h]

/-! ## Order and nesting -/

/-- **Trees that differ only in their intersections**: in the order of the parts and in how the
parts are nested, at any depth. -/
inductive Rearranges : QueryTree → QueryTree → Prop
  | refl (tree : QueryTree) : Rearranges tree tree
  | symm {tree other : QueryTree} : Rearranges tree other → Rearranges other tree
  | trans {tree middle other : QueryTree} :
    Rearranges tree middle → Rearranges middle other → Rearranges tree other
  | boost {tree other : QueryTree} (factor : Single) :
    Rearranges tree other → Rearranges (boost factor tree) (boost factor other)
  | part {first first' : QueryTree} (others : List QueryTree) :
    Rearranges first first' → Rearranges (all first others) (all first' others)
  | order {first first' : QueryTree} {others others' : List QueryTree} :
    (first :: others).Perm (first' :: others') → Rearranges (all first others) (all first' others')
  | single (tree : QueryTree) : Rearranges (all tree []) tree
  | nest (inner : QueryTree) (inners others : List QueryTree) :
    Rearranges (all (all inner inners) others) (all inner (inners ++ others))

/-- **The order and the nesting of the parts** do not matter to the set.

**Proof sketch.** Induction on how the trees are rearranged. -/
theorem Rearranges.denotes_iff (h : tree.Rearranges other) (id : UInt64) :
    tree.Denotes id ↔ other.Denotes id := by
  induction h with
  | refl => rfl
  | symm _ ih => exact ih.symm
  | trans _ _ ih ih' => exact ih.trans ih'
  | boost _ _ ih => exact ih
  | part _ _ ih => rw [Denotes, Denotes, ih]
  | order hperm =>
    rw [denotes_all_iff, denotes_all_iff]
    exact ⟨fun hall tree htree => hall tree (hperm.mem_iff.mpr htree),
      fun hall tree htree => hall tree (hperm.mem_iff.mp htree)⟩
  | single => simp only [Denotes, AllDenote, and_true]
  | nest => simp only [Denotes, allDenote_iff, List.forall_mem_append, and_assoc]

end QueryTree

/-! ## Calls -/

/-- What can be asked of a query. -/
inductive QueryCall
  /-- The next documents, at most `room`. -/
  | fill (room : Nat)
  /-- Which documents of a list it matches. -/
  | narrow (ids : List UInt64)
  /-- The scores of some documents, with a factor, in some slots. -/
  | score (ids : List UInt64) (factor : Single) (slots : List Single)

namespace QueryCall

/-- **A proper call** has room for a document, or a list that is ascending, repeats allowed. -/
def Proper : QueryCall → Prop
  | fill room => 0 < room
  | narrow ids => ids.Pairwise (· ≤ ·)
  | score .. => True

/-- Whether the call asks for the next documents. -/
def isFill : QueryCall → Bool
  | fill _ => true
  | narrow _ | score .. => false

end QueryCall

/-- What has been asked of a query, each call with the documents that it was answered with. Scores
come with none. -/
abbrev Transcript := List (QueryCall × List UInt64)

/-- The documents that a query has handed out. -/
def Transcript.handedOut (transcript : Transcript) : List UInt64 :=
  transcript.flatMap fun (call, ids) => if call.isFill then ids else []

namespace Query

/-- One call. -/
def ask (query : Query) : QueryCall → List UInt64 × Query
  | .fill room => query.fill room
  | .narrow ids => query.narrow ids
  | .score ids factor slots => ([], (query.score ids factor slots).2)

/-- Some calls. -/
def askAll (query : Query) : List QueryCall → Transcript × Query
  | [] => ([], query)
  | call :: calls =>
    let (ids, query) := query.ask call
    let (rest, query) := query.askAll calls
    ((call, ids) :: rest, query)

variable {query : Query}

/-- **What calls do to a query**, given what has been asked and the state that they leave it in.
What it matches has not changed, and what it had ahead has been handed out in part. -/
structure Transcribes (query : Query) (transcript : Transcript) (final : Query) : Prop where
  sound : final.Sound
  admits : final.admits = query.admits
  handedOut : transcript.handedOut ++ final.upcoming = query.upcoming
  /-- Lists are narrowed to what the query matches. -/
  narrowed : ∀ ids kept, (.narrow ids, kept) ∈ transcript → kept = ids.filter query.admits
  /-- An empty portion is the end. -/
  ended : ∀ room, (.fill room, []) ∈ transcript → final.upcoming = []
  /-- Portions that are not empty use up what is ahead. -/
  count : (∀ room, (.fill room, []) ∉ transcript) →
    transcript.countP (fun entry => entry.1.isFill) ≤ transcript.handedOut.length

/-- A query of which nothing has been asked. -/
lemma Transcribes.nil (h : query.Sound) : query.Transcribes [] query where
  sound := h
  admits := rfl
  handedOut := rfl
  narrowed := fun _ _ hmem => absurd hmem List.not_mem_nil
  ended := fun _ hmem => absurd hmem List.not_mem_nil
  count := fun _ => Nat.zero_le _

/-- A call that hands out nothing, before others.

**Proof sketch.** The call hands out nothing, and the query has the same ahead after it. -/
lemma Transcribes.cons_keeps {next final : Query} {call : QueryCall} {ids : List UInt64}
    {transcript : Transcript} (hfill : call.isFill = false) (hkeeps : query.Keeps next)
    (hkept : ∀ list, call = .narrow list → ids = list.filter query.admits)
    (h : next.Transcribes transcript final) :
    query.Transcribes ((call, ids) :: transcript) final := by
  have hhanded : Transcript.handedOut ((call, ids) :: transcript) = transcript.handedOut := by
    simp [Transcript.handedOut, hfill]
  have hroom : ∀ room, ((.fill room, []) : QueryCall × List UInt64) ≠ (call, ids) := by
    rintro room heq
    obtain ⟨rfl, -⟩ := Prod.mk.inj heq
    cases hfill
  refine ⟨h.sound, h.admits.trans hkeeps.admits, ?_, fun list kept hmem => ?_, fun room hmem => ?_,
    fun hnone => ?_⟩
  · rw [hhanded, h.handedOut, upcoming, upcoming, hkeeps.admits, hkeeps.lead]
  · rcases List.mem_cons.mp hmem with heq | hrest
    · obtain ⟨rfl, rfl⟩ := Prod.mk.inj heq
      exact hkept list rfl
    · rw [h.narrowed list kept hrest, hkeeps.admits]
  · exact h.ended room ((List.mem_cons.mp hmem).resolve_left (hroom room))
  · rw [hhanded, List.countP_cons, hfill]
    exact h.count fun room hmem => hnone room (List.mem_cons_of_mem _ hmem)

/-- A portion, before other calls.

**Proof sketch.** The portion and what is ahead after it are what was ahead before it. -/
lemma Transcribes.cons_fill {room : Nat} (hroom : 0 < room) (hsound : query.Sound)
    {transcript : Transcript} {final : Query}
    (h : (query.fill room).2.Transcribes transcript final) :
    query.Transcribes ((.fill room, (query.fill room).1) :: transcript) final := by
  obtain ⟨_, hadmits, hportion, hempty⟩ := fill_eq hroom hsound
  have hhanded : Transcript.handedOut ((.fill room, (query.fill room).1) :: transcript) =
      (query.fill room).1 ++ transcript.handedOut := rfl
  have hends : (query.fill room).1 = [] → final.upcoming = [] := by
    intro hnil
    have hrest := h.handedOut
    rw [(List.append_eq_nil_iff.mp (hportion.trans (hempty hnil))).2] at hrest
    exact (List.append_eq_nil_iff.mp hrest).2
  refine ⟨h.sound, h.admits.trans hadmits, ?_, fun list kept hmem => ?_, fun other hmem => ?_,
    fun hnone => ?_⟩
  · rw [hhanded, List.append_assoc, h.handedOut, hportion]
  · rcases List.mem_cons.mp hmem with heq | hrest
    · cases (Prod.mk.inj heq).1
    · rw [h.narrowed list kept hrest, hadmits]
  · rcases List.mem_cons.mp hmem with heq | hrest
    · exact hends (Prod.mk.inj heq).2.symm
    · exact h.ended other hrest
  · have hsome : (query.fill room).1 ≠ [] := fun hnil => hnone room (hnil ▸ List.mem_cons_self ..)
    have hrest := h.count fun other hmem => hnone other (List.mem_cons_of_mem _ hmem)
    have hpos := List.length_pos_iff.mpr hsome
    rw [hhanded, List.length_append, List.countP_cons_of_pos rfl]
    omega

/-- **Any proper calls**, by induction on them.

**Proof sketch.** Induction on the calls. A portion hands out the beginning of what is ahead, and
the other calls keep what is ahead. -/
theorem transcribes_askAll {calls : List QueryCall} (hproper : ∀ call ∈ calls, call.Proper)
    (h : query.Sound) : query.Transcribes (query.askAll calls).1 (query.askAll calls).2 := by
  induction calls generalizing query with
  | nil => exact .nil h
  | cons call calls ih =>
    obtain ⟨hcall, hcalls⟩ := List.forall_mem_cons.mp hproper
    cases call with
    | fill room => exact .cons_fill hcall h (ih hcalls (fill_eq hcall h).1)
    | narrow ids =>
      obtain ⟨hkept, hkeeps⟩ := narrow_eq h hcall
      refine .cons_keeps rfl hkeeps ?_ (ih hcalls hkeeps.sound)
      rintro list ⟨⟩
      exact hkept
    | score ids factor slots =>
      have hkeeps := keeps_score h ids factor slots
      exact .cons_keeps rfl hkeeps nofun (ih hcalls hkeeps.sound)

/-- A transcript names the calls that were made. -/
lemma map_fst_askAll (query : Query) (calls : List QueryCall) :
    (query.askAll calls).1.map Prod.fst = calls := by
  induction calls generalizing query with
  | nil => rfl
  | cons call calls ih =>
    rw [askAll, List.map_cons, ih]

end Query

namespace QueryTree

/-- **A query stands for its set**, whatever is asked of it. It has one list of documents, which is
strictly ascending and holds exactly the set of its tree; any other tree for the same set, such as
one with other orders and nestings of the parts, has the same list. After any proper calls, every
list has been narrowed to its members of this set, and the portions, joined, are the beginning of
this list, all of it as soon as one of them was empty, which happens when there are more of them
than documents. The next portion takes no more rounds than its leading leaf has documents left.

**Proof sketch.** A new query matches its set and has everything ahead. Calls keep what the query
matches and hand out what is ahead, piece by piece. -/
theorem answers_of_askAll (tree : QueryTree) {calls : List QueryCall}
    (hproper : ∀ call ∈ calls, call.Proper) :
    tree.documents.Pairwise (· < ·) ∧ (∀ id, id ∈ tree.documents ↔ tree.Denotes id) ∧
      (∀ other : QueryTree, tree.Rearranges other ∨ (∀ id, tree.Denotes id ↔ other.Denotes id) →
        other.documents = tree.documents) ∧
      ∃ transcript final, tree.build.askAll calls = (transcript, final) ∧
        transcript.map Prod.fst = calls ∧
        (∀ ids kept, (.narrow ids, kept) ∈ transcript → kept = ids.filter (· ∈ tree.documents)) ∧
        transcript.handedOut <+: tree.documents ∧
        (∀ room, (.fill room, []) ∈ transcript → transcript.handedOut = tree.documents) ∧
        (tree.documents.length < calls.countP QueryCall.isFill →
          ∃ room, (.fill room, []) ∈ transcript) ∧
        ∀ room, ∃ count ≤ final.remaining,
          (∀ earlier < count, ((final.afterRounds room earlier).round room).1.ids = []) ∧
          (((final.afterRounds room count).round room).1.isLast = true ∧ (final.fill room).1 = [] ∨
            (final.fill room).1 = ((final.afterRounds room count).round room).1.ids) := by
  obtain ⟨hfresh, hadmits⟩ := fresh_build tree
  have hrun := Query.transcribes_askAll hproper hfresh.sound
  have hcalls := tree.build.map_fst_askAll calls
  refine ⟨tree.pairwise_documents, fun id => mem_documents, fun other h => ?_, ?_⟩
  · refine documents_congr fun id => ?_
    rcases h with h | h
    · exact (h.denotes_iff id).symm
    · exact (h id).symm
  generalize tree.build.askAll calls = run at hrun hcalls ⊢
  obtain ⟨transcript, final⟩ := run
  refine ⟨transcript, final, rfl, hcalls, fun ids kept hmem => ?_, ⟨_, hrun.handedOut⟩,
    fun room hmem => ?_, fun hlt => ?_, fun room => ?_⟩
  · rw [hrun.narrowed ids kept hmem]
    refine List.filter_congr fun id _ => Bool.eq_iff_iff.mpr ?_
    rw [decide_eq_true_iff, mem_documents, hadmits]
  · have hall := hrun.handedOut
    rw [hrun.ended room hmem, List.append_nil] at hall
    exact hall
  · by_contra hnone
    have hcount := hrun.count fun room hmem => hnone ⟨room, hmem⟩
    have hle : transcript.handedOut.length ≤ tree.documents.length :=
      List.IsPrefix.length_le ⟨_, hrun.handedOut⟩
    rw [← hcalls, List.countP_map] at hlt
    exact absurd (hlt.trans_le (hcount.trans hle)) (Nat.lt_irrefl _)
  · obtain ⟨count, hle, hearlier, hends, _⟩ := final.exists_rounds room
    exact ⟨count, hle, hearlier, hends⟩

/-- Two posting lists with one document in common, the second one inside an intersection of its own,
narrowing a list with repeats between two portions.

**Proof sketch.** The tree denotes the set of one posting list with the one document, for which the
documents can be computed. -/
theorem exists_answers : ∃ transcript final,
    (all (posting [(2, .one), (1, .one)]) [all (posting [(3, .one), (2, .one)]) []]).build.askAll
        [.fill 1, .narrow [1, 2, 2], .fill 1] = (transcript, final) ∧
      (∀ kept, (.narrow [1, 2, 2], kept) ∈ transcript → kept = [2, 2]) ∧
      transcript.handedOut = [2] := by
  have hset : ∀ id : UInt64, (all (posting [(2, .one), (1, .one)])
      [all (posting [(3, .one), (2, .one)]) []]).Denotes id ↔ (posting [(2, .one)]).Denotes id := by
    intro id
    simp only [Denotes, AllDenote, and_true, List.map_cons, List.map_nil, List.mem_cons,
      List.not_mem_nil, or_false]
    constructor
    · rintro ⟨rfl | rfl, h | h⟩ <;> first | rfl | exact absurd h (by decide)
    · rintro rfl
      exact ⟨.inl rfl, .inr rfl⟩
  have hone : (posting [(2, .one)]).documents = [2] := by
    simp [documents, build, Query.upcoming, Query.lead, Query.admits, Posting.ofScored,
      Posting.upcoming, Posting.ids, Posting.dropRepeats]
  have hproper : ∀ call ∈ [.fill 1, .narrow [1, 2, 2], .fill 1], QueryCall.Proper call := by
    simp [QueryCall.Proper]
  obtain ⟨_, _, hsame, transcript, final, hrun, _, hnarrow, _, hall, hends, _⟩ := answers_of_askAll
    (all (posting [(2, .one), (1, .one)]) [all (posting [(3, .one), (2, .one)]) []]) hproper
  rw [← hsame _ (.inr hset), hone] at hnarrow hall hends
  obtain ⟨room, hroom⟩ := hends (by decide)
  refine ⟨transcript, final, hrun, fun kept hmem => ?_, hall room hroom⟩
  rw [hnarrow _ kept hmem]
  decide

end QueryTree

end Proximity

import Proximity.Proofs.Damage.Searching
import Proximity.Proofs.Registration.Atomicity

set_option relaxedAutoImplicit false
set_option autoImplicit false

/-!
# Registering into damaged records

A session reads the containers of its field and fills the last of them. It leaves the run of one in
the case in which a search does, or if the run is too short for a slot that is still to be filled.
Containers that are handed out in the session have runs of their full length. All other damage of
the records is reported by every operation, and a search breaks down beside that only where it is to
keep more vectors than there can be room for.

## Main definitions

* `Proximity.Snapshot.Grown` — where a container of an opened graph comes from.
* `Proximity.FieldGraph.Descends` — the invariant of the graph of a session.

## Main results

* `Proximity.Registration.ends_insert` — inserting a vector.
* `Proximity.Registration.ends_perform` — the answer to any call of a session.
* `Proximity.reports_or_cutShort` — an operation on any records reports what is wrong, unless a run
  is cut short or a search asks for too much.
* `Proximity.not_forall_reports` — not everything is reported.
-/

namespace Proximity

open MessagePack

variable {view : Snapshot} {name : String} {page : PageId} {slot : Nat}

/-! ## Filling containers -/

namespace ContainerLayout

variable {length : Nat} {layout : ContainerLayout}

/-- A slot of a container is numbered by a byte. -/
lemma slotsPerContainer_le (length : Nat) : slotsPerContainer length ≤ 255 := by
  unfold slotsPerContainer maxContainerSlots
  split_ifs <;> omega

/-- The layout for vectors of a length has the slots that go with the length. -/
lemma slots_of_forVectorLength? (h : forVectorLength? length = some layout) :
    layout.slots = slotsPerContainer length ∧ 0 < length := by
  simp only [forVectorLength?] at h
  split at h
  · cases h
  · next hslots =>
    refine ⟨by rw [← Option.some.inj h], Nat.pos_of_ne_zero ?_⟩
    rintro rfl
    exact hslots rfl

/-- A new container has room for all of its slots, unless one vector is too long for any run. -/
lemma slots_mul_le_size_blank (h : forVectorLength? length = some layout) :
    slotsPerContainer length * length ≤ (Container.blank layout).run.size ∨
      maxStoredLength < length := by
  obtain ⟨hslots, hpos⟩ := slots_of_forVectorLength? h
  rcases Nat.lt_or_ge maxStoredLength length with hlong | hle
  · exact .inr hlong
  · obtain ⟨found, hfound, hlength, hfits⟩ := exists_forVectorLength? hpos hle
    obtain rfl := Option.some.inj (h.symm.trans hfound)
    refine .inl ?_
    have hwithin := hfits.within
    rw [hslots, hlength] at hwithin
    rwa [(Container.Holds.blank layout).size]

end ContainerLayout

namespace Container

/-- A slot that is filled lies outside its run only if the run is too short for it.

**Proof sketch.** The two checks come first. The bytes are then written unless they reach behind the
end of the run. -/
lemma ends_push (container : Container) {layout : ContainerLayout} (hslots : layout.slots ≤ 255)
    (page : PageId) (id : VectorId) (bytes : Bytes) :
    (container.push layout page id bytes).Ends (fun e => e.Reports ∨
      e.Overruns page container.used ∧ container.used < layout.slots ∧
        container.run.size < (container.used + 1) * layout.vectorLength)
      fun filled => filled.2.run.size = container.run.size ∧
        filled.2.used = container.used + 1 ∧ container.used < layout.slots := by
  cases hpush : container.push layout page id bytes with
  | error e =>
    refine .error ?_
    unfold push at hpush
    split_ifs at hpush with hlength hfull
    · exact .inl (Except.error.inj hpush ▸ rfl)
    · exact .inl (Except.error.inj hpush ▸ rfl)
    · dsimp only at hpush
      have hbyte : (UInt8.ofNat container.used).toNat = container.used :=
        UInt8.toNat_ofNat_of_lt' (show container.used < 256 by omega)
      rw [ContainerLayout.slotOffset, hbyte] at hpush
      split at hpush
      · cases hpush
      · next hwrite =>
        obtain rfl := Except.error.inj hpush
        have hshort : container.run.size <
            container.used * layout.vectorLength + bytes.length := by
          by_contra hfits
          rw [Run.overwrite?, if_pos (Nat.le_of_not_lt hfits)] at hwrite
          cases hwrite
        refine .inr ⟨rfl, Nat.lt_of_not_le hfull, ?_⟩
        rw [Decidable.not_not.mp hlength] at hshort
        rwa [Nat.add_mul, Nat.one_mul]
  | ok result =>
    obtain ⟨location, filled⟩ := result
    refine .ok ⟨size_of_push hpush, ?_⟩
    unfold push at hpush
    split_ifs at hpush with _ hfull
    dsimp only at hpush
    split at hpush
    · obtain ⟨_, rfl⟩ := Prod.mk.inj (Except.ok.inj hpush)
      exact ⟨by rw [used, used, List.length_append, List.length_singleton],
        Nat.lt_of_not_le hfull⟩
    · cases hpush

end Container

/-- **Where a container of an opened graph comes from.** It can be read in the field, and more of
its slots have been filled at most; or it has been handed out since, with a run for all of its slots
unless one vector is too long for any run. -/
def Snapshot.Grown (view : Snapshot) (name : String) (length : Nat) (page : PageId)
    (container : Container) : Prop :=
  (∃ stored, view.Reads name page stored ∧ container.run.size = stored.run.size ∧
      container.used ≤ max stored.used (slotsPerContainer length)) ∨
    0 < length ∧ container.used ≤ slotsPerContainer length ∧
      (slotsPerContainer length * length ≤ container.run.size ∨ maxStoredLength < length)

/-- The error of a registration is a report, or vectors of this length are too long for any run, or
the error blames a container of the field that is cut short for them. -/
def Snapshot.BlamesFilling (view : Snapshot) (name : String) (length : Nat) (e : IndexError) :
    Prop :=
  e.Reports ∨ ∃ page slot, e.Overruns page slot ∧ (maxStoredLength < length ∨
    view.CutShort name length (slotsPerContainer length) page slot)

variable {length : Nat} {container : Container}

/-- A report blames nothing. -/
lemma Snapshot.blamesFilling_of_reports {e : IndexError} (h : e.Reports) :
    view.BlamesFilling name length e :=
  .inl h

/-- No container is cut short for vectors without bytes. -/
lemma Snapshot.BlamesFilling.reports {e : IndexError} (h : view.BlamesFilling name 0 e) :
    e.Reports := by
  rcases h with hreports | ⟨_, _, _, hlong | ⟨_, _, _, hshort, _⟩⟩
  · exact hreports
  · exact absurd hlong (Nat.not_lt_zero _)
  · exact absurd hshort (Nat.not_lt_zero _)

/-- **A slot outside the run of a container** of an opened graph, which is taken or can be filled,
is a slot outside a container that is cut short. -/
theorem Snapshot.Grown.cutShort (h : view.Grown name length page container)
    (hslot : slot < max container.used (slotsPerContainer length))
    (hshort : container.run.size < (slot + 1) * length) (hbound : slot < 256) :
    maxStoredLength < length ∨ view.CutShort name length (slotsPerContainer length) page slot := by
  rcases h with ⟨stored, hreads, hsize, hused⟩ | ⟨_, hused, hroom | hlong⟩
  · refine .inr ⟨stored, hreads, ?_, hsize ▸ hshort, hbound⟩
    omega
  · have hle : (slot + 1) * length ≤ slotsPerContainer length * length :=
      Nat.mul_le_mul_right length (by omega)
    omega
  · exact .inl hlong

/-- The length that a first vector decides changes nothing about the containers. -/
lemma Snapshot.Grown.of_zero (h : view.Grown name 0 page container) (length : Nat) :
    view.Grown name length page container := by
  rcases h with ⟨stored, hreads, hsize, hused⟩ | ⟨hpos, _⟩
  · refine .inl ⟨stored, hreads, hsize, ?_⟩
    rw [show slotsPerContainer 0 = 0 from rfl] at hused
    omega
  · exact absurd hpos (Nat.lt_irrefl 0)

namespace FieldGraph

/-- **The look-ups of a graph that a session has changed**: they fail with reports, or for
containers that are cut short, and the containers go back to those of the field. -/
structure Descends (view : Snapshot) (name : String) (graph : FieldGraph) : Prop where
  node : ∀ id, (graph.node id).Ends (view.BlamesFilling name graph.header.vectorLength)
    fun _ => True
  container : ∀ page,
    (graph.container page).Ends (view.BlamesFilling name graph.header.vectorLength)
      (view.Grown name graph.header.vectorLength page)

/-- A graph that has been opened is as the field is. -/
lemma descends_of_load {codec : Codec} {graph : FieldGraph}
    (h : load view name codec = .ok graph) : graph.Descends view name := by
  obtain ⟨hnode, hcontainer, _⟩ := ends_of_load h
  exact {
    node := fun id => (hnode id).imp (fun _ => Snapshot.blamesFilling_of_reports) fun _ h => h
    container := fun page => (hcontainer page).imp (fun _ => Snapshot.blamesFilling_of_reports)
      fun container hreads => .inl ⟨container, hreads, rfl, Nat.le_max_left _ _⟩ }

namespace Descends

variable {graph : FieldGraph} {layout : ContainerLayout}

/-- The look-ups of such a graph leave the run of a container only if one of the field is cut
short. -/
lemma failsBy (h : graph.Descends view name) :
    graph.FailsBy (view.BlamesFilling name graph.header.vectorLength) := by
  refine ⟨h.node, fun place => ?_⟩
  unfold stored FieldGraph.layout
  split
  · next layout hlayout =>
    refine (h.container place.container).bind fun container hgrown => ?_
    refine (Container.ends_vector container layout place).imp (fun e he => he.imp_right ?_)
      fun _ h => h
    rintro ⟨slot, hover, hslot, hshort, hbound⟩
    rw [ContainerLayout.vectorLength_of_forVectorLength? hlayout] at hshort
    exact ⟨place.container, slot, hover,
      hgrown.cutShort (Nat.lt_of_lt_of_le hslot (Nat.le_max_left _ _)) hshort hbound⟩
  · exact .error (.inl rfl)

/-- The length that a first vector decides changes nothing about the look-ups. -/
lemma fixLengths (h : graph.Descends view name) (raw encoded : Nat) :
    ({ graph with header := Registration.fixLengths graph.header raw encoded } :
      FieldGraph).Descends view name := by
  unfold Registration.fixLengths
  split
  · next hzero =>
    have hnode := h.node
    have hcontainer := h.container
    rw [hzero] at hnode hcontainer
    have herror : ∀ e, view.BlamesFilling name 0 e → view.BlamesFilling name encoded e :=
      fun e he => Snapshot.blamesFilling_of_reports he.reports
    exact ⟨fun id => (hnode id).imp herror fun _ h => h,
      fun page => (hcontainer page).imp herror fun container hgrown => hgrown.of_zero encoded⟩
  · exact h

end Descends

end FieldGraph

/-! ## Registering -/

namespace Registration

variable {session : Registration} {graph : FieldGraph} {layout : ContainerLayout}
  {txn : WriteTransaction} {id : VectorId} {raw level : Nat} {encoded : Bytes}

/-- **Looking for a free slot** gives a container that goes back to one of the field, or a new
one.

**Proof sketch.** The open container of the field is taken if it has a free slot, or else a new run
that is long enough for its layout. -/
theorem ends_allocate (h : graph.Descends view name)
    (hlayout : ContainerLayout.forVectorLength? graph.header.vectorLength = some layout)
    (txn : WriteTransaction) :
    (allocate txn graph layout).2.Ends (view.BlamesFilling name graph.header.vectorLength)
      fun found => view.Grown name graph.header.vectorLength found.1 found.2 := by
  cases hallocate : allocate txn graph layout with
  | mk txn' result =>
    cases result with
    | ok found =>
      obtain ⟨page, container⟩ := found
      refine .ok ?_
      rcases allocate_cases hallocate with ⟨_, hcontainer⟩ | ⟨_, rfl⟩
      · exact (hcontainer ▸ h.container page).of_ok
      · obtain ⟨_, hpos⟩ := ContainerLayout.slots_of_forVectorLength? hlayout
        exact .inr ⟨hpos, Nat.zero_le _, ContainerLayout.slots_mul_le_size_blank hlayout⟩
    | error e =>
      refine .error ?_
      unfold allocate at hallocate
      cases hroomy : roomyContainer graph layout with
      | error e' =>
        rw [hroomy] at hallocate
        obtain rfl := Except.error.inj (Prod.mk.inj hallocate).2
        unfold roomyContainer at hroomy
        split at hroomy
        · cases hroomy
        · next page _ =>
          rcases Except.bind_eq_error_iff.mp hroomy with hcontainer | ⟨_, _, hroomy⟩
          · exact (hcontainer ▸ h.container page).of_error
          · cases hroomy
      | ok found =>
        cases found with
        | some found =>
          rw [hroomy] at hallocate
          cases (Prod.mk.inj hallocate).2
        | none =>
          rw [hroomy] at hallocate
          dsimp only at hallocate
          split at hallocate
          · exact .inl ((Except.error.inj (Prod.mk.inj hallocate).2) ▸ rfl)
          · cases (Prod.mk.inj hallocate).2

/-- **Putting a vector away and linking it** leaves the run of a container only if one of the field
is cut short.

**Proof sketch.** Filling the slot blames the container that has been found. Linking fails as the
look-ups of the graph do, which goes back to containers of the field. -/
theorem ends_place (h : graph.Descends view name)
    (hlayout : ContainerLayout.forVectorLength? graph.header.vectorLength = some layout)
    (hgrown : view.Grown name graph.header.vectorLength page container) (options : FieldOptions) :
    (place graph options layout page container id encoded level).Ends
      (view.BlamesFilling name graph.header.vectorLength) (FieldGraph.Descends view name) := by
  obtain ⟨hslots, hpos⟩ := ContainerLayout.slots_of_forVectorLength? hlayout
  have hlength := ContainerLayout.vectorLength_of_forVectorLength? hlayout
  have hbound := ContainerLayout.slotsPerContainer_le graph.header.vectorLength
  have hpush : (container.push layout page id encoded).Ends
      (view.BlamesFilling name graph.header.vectorLength)
      fun filled => view.Grown name graph.header.vectorLength page filled.2 := by
    refine (container.ends_push (hslots ▸ hbound) page id encoded).imp
      (fun e he => he.imp_right ?_) fun filled hfilled => ?_
    · rintro ⟨hover, hslot, hshort⟩
      rw [hslots] at hslot
      rw [hlength] at hshort
      exact ⟨page, container.used, hover,
        hgrown.cutShort (Nat.lt_of_lt_of_le hslot (Nat.le_max_right _ _)) hshort (by omega)⟩
    · obtain ⟨hsize, hused, hlt⟩ := hfilled
      rw [hslots] at hlt
      rcases hgrown with ⟨stored, hreads, hsame, _⟩ | ⟨_, _, hroom⟩
      · exact .inl ⟨stored, hreads, hsize.trans hsame, by omega⟩
      · exact .inr ⟨hpos, by omega, by rwa [hsize]⟩
  refine hpush.bind ?_
  rintro ⟨location, filled⟩ hfilled
  dsimp only
  set graph' : FieldGraph := { graph.setContainer page filled with
    header := { graph.header with openContainer := some page } } with hgraph'
  have hdescends : graph'.Descends view name := by
    refine ⟨h.node, fun other => ?_⟩
    rw [show graph'.container other = (graph.setContainer page filled).container other from rfl,
      FieldGraph.setContainer_container]
    split
    · next heq => exact .ok (heq ▸ hfilled)
    · exact h.container other
  have hduplicate : view.BlamesFilling name graph'.header.vectorLength (.duplicate id.raw) :=
    .inl rfl
  have hinsert := hdescends.failsBy.ends_insert (fun layer => .inl rfl)
    hduplicate location level options.edges options.candidates
  change (graph'.insert id location level options.edges options.candidates).Ends _ _
  cases hnext : graph'.insert id location level options.edges options.candidates with
  | error e => exact .error (hnext ▸ hinsert).of_error
  | ok next =>
    have hnodes := (hnext ▸ hinsert).of_ok
    obtain ⟨_, linked, hrewires, rfl⟩ := FieldGraph.exists_of_insert hnext
    have hheader : (FieldGraph.countNode linked.header id level).vectorLength =
        graph.header.vectorLength := by
      rw [FieldGraph.vectorLength_countNode, hrewires.header]
      rfl
    have hsame : ∀ other, linked.container other = graph'.container other := fun other => by
      unfold FieldGraph.container
      rw [hrewires.containers]
      rfl
    refine .ok ⟨?_, fun other => ?_⟩
    · dsimp only
      rw [hheader]
      exact hnodes
    · dsimp only
      rw [hheader]
      exact hsame other ▸ hdescends.container other

/-- **An insertion** leaves the run of a container only if one of the field is cut short.

**Proof sketch.** The three steps of an insertion one after the other: the lengths, the free slot,
and the place in the graph. -/
theorem ends_insert (h : session.graph.Descends view name) (id : VectorId) (raw : Nat)
    (encoded : Bytes) (level : Nat) :
    (session.insert id raw encoded level).2.Ends (view.BlamesFilling name
        (fixLengths session.graph.header raw encoded.length).vectorLength)
      (FieldGraph.Descends view name) := by
  have hfixed := h.fixLengths raw encoded.length
  unfold insert FieldGraph.layout
  dsimp only
  cases hlayout : ContainerLayout.forVectorLength?
      (fixLengths session.graph.header raw encoded.length).vectorLength with
  | none => exact .error (.inl rfl)
  | some layout =>
    have hallocate := ends_allocate hfixed hlayout session.txn
    dsimp only
    cases hfound : allocate session.txn { session.graph with
        header := fixLengths session.graph.header raw encoded.length } layout with
    | mk txn result =>
      rw [hfound] at hallocate
      cases result with
      | error e => exact .error hallocate.of_error
      | ok found => exact ends_place hfixed hlayout hallocate.of_ok session.field.options

/-- What is wrong with a vector is reported before its insertion begins.

**Proof sketch.** The checks are reported in the order in which they are made; an encoding finds one
kind of fault only. -/
lemma ends_check (session : Registration) (id : UInt64) (raw : Bytes) :
    (session.check id raw).Ends IndexError.Reports fun _ => True := by
  unfold check
  simp only [Except.throw_eq_error]
  split
  · exact .error rfl
  split
  swap
  · exact .error rfl
  refine Except.Ends.bind (Q := fun _ => True) ?_ fun encoded _ => ?_
  · cases hencode : session.graph.codec.encode raw with
    | ok encoded => exact .ok trivial
    | error e =>
      refine .error ?_
      rcases Except.bind_eq_error_iff.mp hencode with hcheck | ⟨_, _, hconvert⟩
      · obtain ⟨reason, rfl⟩ := Encoding.check_eq_error hcheck
        rfl
      · revert hconvert
        cases session.graph.codec.source <;> cases session.graph.codec.destination <;>
          intro hconvert <;> cases hconvert <;> rfl
  refine Except.Ends.bind (Q := fun _ => True) ?_ fun _ _ => ?_
  · cases hlengths : session.checkLengths raw.length encoded.length with
    | ok _ => exact .ok trivial
    | error e =>
      obtain ⟨expected, got, rfl⟩ := checkLengths_eq_error hlengths
      exact .error rfl
  split
  · exact .error rfl
  · exact .ok trivial

/-- A call leaves a graph that goes back to that of the field. -/
lemma descends_perform {call : Call} (h : session.graph.Descends view name) :
    (session.perform call).1.graph.Descends view name := by
  have houtcome := session.outcome_perform call
  generalize session.perform call = result at *
  cases houtcome with
  | unread => exact h
  | refused => exact h
  | @inserted raw stored generator level txn graph _ _ hinsert =>
    have hends := ends_insert h ⟨call.id⟩ raw.length stored level
    rw [hinsert] at hends
    exact hends.of_ok
  | failed => exact h

/-- **Any calls** leave a graph that goes back to that of the field. -/
theorem descends_performAll {calls : List Call} (h : session.graph.Descends view name) :
    (session.performAll calls).1.graph.Descends view name := by
  induction calls generalizing session with
  | nil => exact h
  | cons call calls ih => exact ih (descends_perform h)

/-- The vectors of a field that are accepted have the length that its header gives.

**Proof sketch.** A field that is not empty has checked the length, and an empty one takes it
over. -/
lemma vectorLength_of_check {id : UInt64} {raw stored : Bytes}
    (h : session.check id raw = .ok stored) :
    (fixLengths session.graph.header raw.length stored.length).vectorLength = stored.length := by
  cases hfailure : session.failure with
  | some failed =>
    rw [check_of_failure hfailure] at h
    cases h
  | none =>
    simp only [check, hfailure, Except.throw_eq_error] at h
    split at h
    swap
    · cases h
    obtain ⟨encoded, _, h⟩ := Except.bind_eq_ok_iff.mp h
    obtain ⟨_, hlengths, h⟩ := Except.bind_eq_ok_iff.mp h
    split at h
    · cases h
    obtain rfl := Except.ok.inj h
    obtain ⟨_, _, hlength⟩ := checkLengths_eq_ok_iff.mp hlengths
    unfold fixLengths
    split
    · rfl
    · next hne => exact (hlength (Nat.pos_of_ne_zero hne)).symm

/-- **The answer to a call** that can be read is a report, or it blames a container that is cut
short.

**Proof sketch.** A call that is refused is answered by a check, and one that fails by its
insertion. -/
theorem ends_perform {call : Call} (h : session.graph.Descends view name)
    (hread : ∃ raw, call.given = .ok raw) :
    (session.perform call).2.Ends (fun e => e.Reports ∨ ∃ page slot raw stored,
      e.Overruns page slot ∧ call.given = .ok raw ∧ session.check call.id raw = .ok stored ∧
        (maxStoredLength < stored.length ∨
          view.CutShort name stored.length (slotsPerContainer stored.length) page slot))
      fun _ => True := by
  obtain ⟨raw, hraw⟩ := hread
  have houtcome := session.outcome_perform call
  generalize session.perform call = result at *
  cases houtcome with
  | unread hgiven =>
    rw [hraw] at hgiven
    cases hgiven
  | @refused raw _ _ hcheck =>
    exact .error (.inl (hcheck ▸ session.ends_check call.id raw).of_error)
  | inserted => exact .ok trivial
  | @failed raw stored generator level txn e hgiven hcheck hinsert =>
    have hends := ends_insert h ⟨call.id⟩ raw.length stored level
    rw [hinsert, vectorLength_of_check hcheck] at hends
    refine .error (hends.of_error.imp_right ?_)
    rintro ⟨page, slot, hover, hcut⟩
    exact ⟨page, slot, raw, stored, hover, hgiven, hcheck, hcut⟩

end Registration

/-! ## Whatever the records are -/

/-- A search blames a container that is cut short for the vectors that the header describes, or asks
for more room than there can be. -/
lemma Search.reports_or_blames {count : Nat} {query : Bytes} {minSimilarity : Single}
    {e : IndexError} (hsearch : Search.exact view name count query minSimilarity = .error e ∨
      Search.approximate view name count query minSimilarity = .error e) :
    e.Reports ∨ ∃ field, Catalog.find view name = .ok field ∧
      (view.Blames field.name e ∨ view.Overasks field.name count e) := by
  cases hfind : Catalog.find view name with
  | error e' =>
    have hreports := (hfind ▸ Catalog.ends_find view name).of_error
    rw [Search.exact, Search.approximate, hfind, Except.error_bind, Except.error_bind, or_self,
      Except.error.injEq] at hsearch
    exact .inl (hsearch ▸ hreports)
  | ok field =>
    rw [Search.exact, Search.approximate, hfind, Except.ok_bind, Except.ok_bind] at hsearch
    refine .inr ⟨field, rfl, ?_⟩
    rcases hsearch with hexact | happroximate
    · exact (hexact ▸ ends_exactIn view field count query minSimilarity).of_error
    · exact (happroximate ▸ ends_approximateIn view field count query minSimilarity).of_error

/-- Inspecting a graph blames no container. -/
lemma FieldGraph.ends_inspection (view : Snapshot) (name : String) (codec : Codec) :
    (load view name codec).Ends IndexError.Reports fun graph => ∀ layer id,
      (graph.node id).Ends IndexError.Reports (fun _ => True) ∧
        (graph.neighbors layer id).Ends IndexError.Reports fun _ => True := by
  cases hload : load view name codec with
  | error e =>
    refine .error ?_
    rcases Except.bind_eq_error_iff.mp hload with hheader | ⟨_, _, hload⟩
    · exact (hheader ▸ GraphHeader.ends_find view name).of_error
    · cases hload
  | ok graph =>
    have hnode := (ends_of_load hload).1
    exact .ok fun layer id => ⟨hnode id, (hnode id).bind fun _ _ => .ok trivial⟩

/-- The graph of a session that has been opened comes from the records of the transaction. -/
lemma Registration.Opened.descends {txn : WriteTransaction} {session : Registration}
    (h : Opened txn session) : session.graph.Descends txn.view session.field.name := by
  induction h with
  | start h => exact FieldGraph.descends_of_load (exists_of_start h).2.2.2.2
  | withSeed _ seed ih =>
    rw [Registration.withSeed]
    generalize Generator.ofSeed seed = generator
    exact ih

/-- **An operation reports what is wrong, unless a run is cut short or a search asks for too much**,
whatever the records and the page runs are. Searching leaves the run of a container only if it is
cut short for the vectors that the header of the field describes, and breaks down otherwise only if
there cannot be room for as many vectors as it is to keep; inspecting a graph does neither; and
registering leaves the run of a container only if it is cut short for the vector, counting the slots
that are still to be filled, unless the vector is too long for any run. Every other failure is a
report.

**Proof sketch.** Each look-up of a node or a container ends with a report, or reads a slot of a
container that goes back to a record of the field. The algorithms on the graph pass on how their
look-ups end. -/
theorem reports_or_cutShort (view : Snapshot) (name : String) :
    (∀ (count : Nat) (query : Bytes) (minSimilarity : Single) (e : IndexError),
      Search.exact view name count query minSimilarity = .error e ∨
        Search.approximate view name count query minSimilarity = .error e →
      e.Reports ∨ ∃ field, Catalog.find view name = .ok field ∧
        ((∃ page slot header, e.Overruns page slot ∧
            GraphHeader.find view field.name = .ok header ∧
            view.CutShort field.name header.vectorLength 0 page slot) ∨
          ∃ header, GraphHeader.find view field.name = .ok header ∧ 0 < header.nodeCount ∧
            0 < header.vectorLength ∧ Search.maxRoom < (count + 1) % UInt64.size ∧
            e = .roomOverflow ((count + 1) % UInt64.size))) ∧
    (∀ codec : Codec,
      (FieldGraph.load view name codec).Ends IndexError.Reports fun graph => ∀ layer id,
        (graph.node id).Ends IndexError.Reports (fun _ => True) ∧
          (graph.neighbors layer id).Ends IndexError.Reports fun _ => True) ∧
    ∀ (txn : WriteTransaction) (session : Registration), txn.view = view →
      Registration.Opened txn session →
      ∀ (calls : List Registration.Call) (call : Registration.Call) (e : IndexError),
        (∃ raw, call.given = .ok raw) →
        ((session.performAll calls).1.perform call).2 = .error e →
        e.Reports ∨ ∃ page slot raw stored, e.Overruns page slot ∧ call.given = .ok raw ∧
          (session.performAll calls).1.check call.id raw = .ok stored ∧
          (maxStoredLength < stored.length ∨ view.CutShort session.field.name stored.length
            (slotsPerContainer stored.length) page slot) := by
  refine ⟨fun count query minSimilarity e hsearch => ?_, FieldGraph.ends_inspection view name, ?_⟩
  · rcases Search.reports_or_blames hsearch with hreports | ⟨field, hfind, hblames | hoverasks⟩
    · exact .inl hreports
    · exact hblames.imp_right fun hcut => ⟨field, hfind, .inl hcut⟩
    · exact .inr ⟨field, hfind, .inr hoverasks⟩
  · rintro txn session rfl hopened calls call e hread hanswer
    have hdescends : (session.performAll calls).1.graph.Descends txn.view session.field.name :=
      Registration.descends_performAll hopened.descends
    have hends := Registration.ends_perform hdescends hread
    rw [hanswer] at hends
    exact hends.of_error

/-- The header of a graph with one vector that is longer than a page. -/
def overlong : GraphHeader :=
  { GraphHeader.blank with nodeCount := 1, vectorLength := pageSize + 4 }

/-- A transaction in which a field has been put into the key space by hand, with the record of one
container that lists some vectors, on a run that has been handed out.

**Proof sketch.** The definition, the header and the container record are put under their keys, and
no other container has a key. -/
lemma exists_listing {field : FieldRecord} {header : GraphHeader} {record : ContainerRecord}
    (hname : '/' ∉ field.name.toList) (hfield : field.Fits) (hheader : header.Fits)
    (hrecord : record.Fits) :
    ∃ txn : WriteTransaction, Catalog.find txn.view field.name = .ok field ∧
      GraphHeader.find txn.view field.name = .ok header ∧
      txn.view.Reads field.name ⟨0⟩ ⟨record.ids, Run.blank 1⟩ ∧
      ∀ key stored, (key, stored) ∈ txn.view.scan (RecordKey.containerStem field.name) →
        ∃ page container, key = (RecordKey.container field.name page).bytes ∧
          Container.ofStored txn.view page stored = .ok container := by
  obtain ⟨txn, _, hsame, _, hruns⟩ :=
    (Registration.describing field header).exists_allocate Nat.one_ne_zero
  set key := (RecordKey.container field.name ⟨0⟩).bytes with hkey
  have hget : ∀ other, (txn.put key (encode record)).view.get? other =
      if key = other then some (encode record) else
      if (RecordKey.graph field.name).bytes = other then some (encode header) else
      if (RecordKey.field field.name).bytes = other then some (encode field) else none := by
    intro other
    rw [WriteTransaction.get?_view_put, hsame.get?, Registration.describing,
      WriteTransaction.get?_view_put, WriteTransaction.get?_view_put, WriteTransaction.get?_start]
    simp [Snapshot.get?, Snapshot.empty]
  have hne := @RecordKey.bytes_ne_of_ne field.name hname
  have hstem := fun key hkey => @RecordKey.startsWith_containerStem_iff key field.name hkey hname
  have hread : Container.ofStored (txn.put key (encode record)).view ⟨0⟩ (encode record) =
      .ok ⟨record.ids, Run.blank 1⟩ := by
    have hrun : (txn.put key (encode record)).view.run ⟨0⟩ = .ok (Run.blank 1) := by
      rw [WriteTransaction.run_view_put, hruns]
      exact if_pos rfl
    rw [Container.ofStored, ContainerRecord.decode_encode hrecord, Except.ok_bind, hrun]
    rfl
  refine ⟨txn.put key (encode record), ?_, ?_, ?_, fun other stored hmem => ?_⟩
  · rw [Catalog.find, hget, if_neg (hne rfl rfl (by simp)), if_neg (hne rfl rfl (by simp)),
      if_pos rfl]
    exact FieldRecord.decode_encode hfield
  · rw [GraphHeader.find, hget, if_neg (hne rfl rfl (by simp)), if_pos rfl]
    exact GraphHeader.decode_encode hheader
  · rw [Snapshot.Reads, hget, if_pos rfl, Option.map_some, hread]
  · obtain ⟨hother, hstarts⟩ := Snapshot.mem_scan_iff.mp hmem
    rw [hget] at hother
    split_ifs at hother with hcontainer hgraph hdefinition
    · obtain rfl := Option.some.inj hother
      exact ⟨⟨0⟩, _, hcontainer.symm, hread⟩
    · rw [← hgraph] at hstarts
      obtain ⟨page, hpage⟩ := (hstem (.graph field.name) hname).mp hstarts
      cases hpage
    · rw [← hdefinition] at hstarts
      obtain ⟨page, hpage⟩ := (hstem (.field field.name) hname).mp hstarts
      cases hpage

/-- **Records can be damaged so that a search leaves a run**: the header gives a length of more than
a page, and the only container of the field has one page and lists one vector.

**Proof sketch.** The header gives vectors of more than a page, and the one container lists a vector
in a run of one page. -/
theorem exists_severed : ∃ (view : Snapshot) (page : PageId) (slot : Nat),
    Search.exact view "f" 1 [0, 0, 0, 0] ⟨0⟩ = .error (.slotOutsideRun page slot) ∧
      Catalog.find view "f" = .ok ⟨"f", .ofShape 2 1, 0⟩ ∧
      GraphHeader.find view "f" = .ok overlong := by
  obtain ⟨txn, hfind, hheader, hreads, hreadable⟩ :=
    @exists_listing ⟨"f", .ofShape 2 1, 0⟩ overlong ⟨[⟨1⟩]⟩ (by decide)
      ⟨by decide, ⟨by decide, by decide, by decide⟩, by decide⟩
      ⟨by decide, by decide, by decide, by decide⟩ (by decide : 1 < 2 ^ 32)
  have hencode : Search.encodeQuery ⟨"f", .ofShape 2 1, 0⟩ overlong.rawLength [0, 0, 0, 0] =
      .ok [0, 0, 0, 0] := rfl
  have hcut : txn.view.CutShort "f" overlong.vectorLength 0 ⟨0⟩ 0 := by
    refine ⟨_, hreads, by decide, ?_, by decide⟩
    rw [show (Run.blank 1).size = 1 * pageSize from Array.size_replicate]
    decide
  obtain ⟨page, slot, hsearch⟩ := Search.exists_overrun hheader hencode (by decide) Nat.one_pos
    (by decide) hreadable hcut ⟨0⟩
  exact ⟨txn.view, page, slot, by rw [Search.exact, hfind, Except.ok_bind, hsearch], hfind,
    hheader⟩

/-- **Not every damage is reported**: a search can leave a run. -/
theorem not_forall_reports : ¬∀ (view : Snapshot) (name : String) (count : Nat) (query : Bytes)
    (minSimilarity : Single) (e : IndexError),
    Search.exact view name count query minSimilarity = .error e → e.Reports := by
  intro hall
  obtain ⟨view, page, slot, hsearch, _⟩ := exists_severed
  cases hall view "f" 1 _ _ _ hsearch

/-- A search that leaves a run blames the container that is cut short. -/
theorem exists_cutShort_severed : ∃ (view : Snapshot) (page : PageId) (slot : Nat),
    Search.exact view "f" 1 [0, 0, 0, 0] ⟨0⟩ = .error (.slotOutsideRun page slot) ∧
      view.CutShort "f" (pageSize + 4) 0 page slot := by
  obtain ⟨view, page, slot, hsearch, hfind, hheader⟩ := exists_severed
  obtain ⟨hblames, _⟩ := reports_or_cutShort view "f"
  rcases hblames 1 _ _ _ (.inl hsearch) with hreports | ⟨field, hfield, hcut | hoverasks⟩
  · cases hreports
  · obtain ⟨page', slot', header, hover, hgraph, hcut⟩ := hcut
    obtain ⟨rfl, rfl⟩ := IndexError.slotOutsideRun.inj hover
    obtain rfl := Except.ok.inj (hfind.symm.trans hfield)
    obtain rfl := Except.ok.inj (hheader.symm.trans hgraph)
    exact ⟨view, page, slot, hsearch, hcut⟩
  · obtain ⟨_, _, _, _, _, hcause⟩ := hoverasks
    cases hcause

end Proximity

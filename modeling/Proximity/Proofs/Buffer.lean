import Mathlib.Logic.Function.Iterate
import Mathlib.Tactic.SplitIfs
import Proximity.Buffer

set_option autoImplicit false
set_option relaxedAutoImplicit false

/-!
# Buffers that keep room

Whatever is put into a buffer and taken out again, its elements are those of the plain list, and
once it has a capacity then at least a sixteenth of it stays free. A growth goes from one capacity
to the next until enough would stay free. Since a capacity that suits many elements suits fewer as
well, the growth for many elements passes through the one for fewer, and it does not matter whether
elements come one by one or all at once.

## Main definitions

* `Proximity.Growth.Suits` — a capacity that holds some elements and leaves enough free.
* `Proximity.Buffer.Call`, `Proximity.Buffer.applyAll` — what is done to a buffer.
* `Proximity.Buffer.Roomy` — the invariant of a buffer.

## Main results

* `Proximity.Growth.exists_rounds` — a growth ends at the first capacity that suits.
* `Proximity.Growth.reach_reach` — a growth for many elements passes through one for fewer.
* `Proximity.Growth.reach_le_maxCapacity_iff` — when a growth stays below the greatest capacity.
* `Proximity.Buffer.append_eq_extend` — it does not matter how elements come.
* `Proximity.Buffer.applyAll_lawful` — what holds of a buffer whatever is done to it.
-/

namespace Proximity

/-! ## Capacities -/

namespace Growth

/-- **A capacity suits** some elements if it holds them and leaves at least a sixteenth free, or one
place if that is more. -/
def Suits (count capacity : Nat) : Prop :=
  count ≤ capacity ∧ max 1 (capacity / 16) ≤ capacity - count

variable (growth : Growth) {count few many capacity : Nat}

/-- A growth goes on as long as a capacity does not suit. -/
lemma suits_iff : Suits count capacity ↔ ¬(capacity < count ∨ tooFull count capacity = true) := by
  rw [Suits, tooFull, decide_eq_true_eq]
  omega

/-- A capacity that suits many elements suits few. -/
lemma Suits.of_le (h : Suits many capacity) (hle : few ≤ many) : Suits few capacity := by
  unfold Suits at h ⊢
  omega

/-- Nothing greater than twice the elements and two is needed. -/
lemma lt_of_not_suits (h : ¬Suits count capacity) : capacity < 2 * count + 2 := by
  unfold Suits at h
  omega

/-- A growth ends with a capacity that suits. -/
lemma reach_of_suits (h : Suits count capacity) : growth.reach count capacity = capacity := by
  rw [reach, if_neg (suits_iff.mp h)]

/-- A growth goes on from a capacity that does not suit. -/
lemma reach_of_not_suits (h : ¬Suits count capacity) :
    growth.reach count capacity = growth.reach count (growth.next capacity) := by
  rw [suits_iff, Decidable.not_not] at h
  rw [reach, if_pos h]

/-- **A growth ends at a capacity that suits**, and it never shrinks.

**Proof sketch.** Induction along the rounds of the growth; a capacity grows in each of them. -/
theorem suits_reach (count capacity : Nat) :
    Suits count (growth.reach count capacity) ∧ capacity ≤ growth.reach count capacity := by
  induction capacity using reach.induct growth count with
  | case1 capacity h ih =>
    have hgrows := growth.lt_next capacity
    rw [reach_of_not_suits growth fun hsuits => suits_iff.mp hsuits h]
    exact ⟨ih.1, by omega⟩
  | case2 capacity h =>
    rw [reach_of_suits growth (suits_iff.mpr h)]
    exact ⟨suits_iff.mpr h, Nat.le_refl capacity⟩

/-- **A growth ends at the first capacity that suits**, after a number of rounds that is limited by
what is still missing.

**Proof sketch.** Induction along the rounds. A capacity that does not suit is bounded by the count,
and each round adds one at least. -/
theorem exists_rounds (count capacity : Nat) :
    ∃ rounds, rounds ≤ 2 * count + 2 - capacity ∧
      growth.reach count capacity = growth.next^[rounds] capacity ∧
      Suits count (growth.next^[rounds] capacity) ∧
      ∀ earlier < rounds, ¬Suits count (growth.next^[earlier] capacity) := by
  induction capacity using reach.induct growth count with
  | case1 capacity h ih =>
    obtain ⟨rounds, hrounds, hreach, hsuits, hearlier⟩ := ih
    have hnot : ¬Suits count capacity := fun hsuits => suits_iff.mp hsuits h
    have hgrows := growth.lt_next capacity
    have hlimit := lt_of_not_suits hnot
    refine ⟨rounds + 1, by omega, ?_, hsuits, ?_⟩
    · rw [growth.reach_of_not_suits hnot, hreach]
      rfl
    · intro earlier hlt
      cases earlier with
      | zero => exact hnot
      | succ earlier => exact hearlier earlier (Nat.lt_of_succ_lt_succ hlt)
  | case2 capacity h =>
    have hsuits := suits_iff.mpr h
    exact ⟨0, Nat.zero_le _, growth.reach_of_suits hsuits, hsuits, nofun⟩

/-- **A growth for many elements passes through the one for fewer**: a capacity that does not suit
the fewer does not suit the many either. -/
theorem reach_reach (hle : few ≤ many) (capacity : Nat) :
    growth.reach many (growth.reach few capacity) = growth.reach many capacity := by
  induction capacity using reach.induct growth few with
  | case1 capacity h ih =>
    have hfew : ¬Suits few capacity := fun hsuits => suits_iff.mp hsuits h
    have hmany : ¬Suits many capacity := fun hsuits => hfew (hsuits.of_le hle)
    rw [growth.reach_of_not_suits hfew, ih, growth.reach_of_not_suits hmany]
  | case2 capacity h => rw [growth.reach_of_suits (suits_iff.mpr h)]

/-- The greatest number of elements that the greatest capacity suits. -/
def maxCount : Nat := maxCapacity - maxCapacity / 16

/-- The greatest capacity suits the greatest number of elements, and no more. -/
lemma suits_maxCapacity_iff : Suits count maxCapacity ↔ count ≤ maxCount := by
  simp only [Suits, maxCount, maxCapacity, UInt64.size]
  omega

/-- **A growth stays below the greatest capacity** exactly if that would suit.

**Proof sketch.** If the growth stays below, the capacity that it ends at suits, which bounds the
count. Conversely no round starts from the greatest capacity, since that would suit. -/
theorem reach_le_maxCapacity_iff (hcapacity : capacity ≤ maxCapacity) :
    growth.reach count capacity ≤ maxCapacity ↔ count ≤ maxCount := by
  constructor
  · intro hle
    obtain ⟨hsuits, _⟩ := growth.suits_reach count capacity
    simp only [Suits, maxCount, maxCapacity, UInt64.size] at hsuits hle ⊢
    omega
  · intro hcount
    induction capacity using reach.induct growth count with
    | case1 capacity h ih =>
      have hnot : ¬Suits count capacity := fun hsuits => suits_iff.mp hsuits h
      have hne : capacity ≠ maxCapacity := by
        rintro rfl
        exact hnot (suits_maxCapacity_iff.mpr hcount)
      rw [growth.reach_of_not_suits hnot]
      refine ih ?_
      unfold next
      omega
    | case2 capacity h => rwa [growth.reach_of_suits (suits_iff.mpr h)]

end Growth

/-! ## Buffers -/

namespace Buffer

open Growth (Suits)

variable {α : Type} {buffer : Buffer α} {growth : Growth}

/-- The capacity that a growth starts from. -/
def base (buffer : Buffer α) : Nat :=
  if buffer.capacity = 0 then buffer.growth.first else buffer.capacity

/-- A growth starts from a place at least. -/
lemma base_pos (buffer : Buffer α) : 0 < buffer.base := by
  have hfirst : 0 < buffer.growth.first := by
    cases buffer.growth <;> exact Nat.lt_of_lt_of_le Nat.one_pos (Nat.le_max_right _ 1)
  rw [base]
  split_ifs <;> omega

/-- A growth starts from no less than there is. -/
lemma capacity_le_base (buffer : Buffer α) : buffer.capacity ≤ buffer.base := by
  rw [base]
  split_ifs <;> omega

/-- A buffer grows until it suits the elements that it has and those to come. -/
lemma capacity_reserve (buffer : Buffer α) (count : Nat) :
    (buffer.reserve count).capacity = buffer.growth.reach (buffer.size + count) buffer.base := rfl

/-- A buffer that has grown has a capacity to start from. -/
lemma base_reserve (buffer : Buffer α) (count : Nat) :
    (buffer.reserve count).base = (buffer.reserve count).capacity := by
  have hpos := buffer.base_pos
  have hle := (buffer.growth.suits_reach (buffer.size + count) buffer.base).2
  rw [base, capacity_reserve, if_neg (by omega)]

/-! ### One by one or all at once -/

/-- An element that comes first makes no difference to the room that is made for others. -/
lemma append_push (buffer : Buffer α) (item : α) (items : List α) :
    (buffer.push item).append items = buffer.append (item :: items) := by
  have hbase : (buffer.push item).base = (buffer.reserve 1).capacity := buffer.base_reserve 1
  have hsize : (buffer.push item).size = buffer.size + 1 := Array.size_push item
  have hcapacity : ((buffer.push item).reserve items.length).capacity =
      (buffer.reserve (items.length + 1)).capacity := by
    have hcount : buffer.size + (items.length + 1) = buffer.size + 1 + items.length := by omega
    rw [capacity_reserve, hbase, hsize, capacity_reserve, capacity_reserve, hcount]
    exact buffer.growth.reach_reach (Nat.le_add_right _ _) buffer.base
  have hitems : buffer.items.push item ++ items.toArray =
      buffer.items ++ (item :: items).toArray := by simp
  exact (Buffer.mk.injEq ..).mpr ⟨hitems, hcapacity, rfl⟩

/-- **It does not matter whether elements come one by one or all at once**, if there are any. -/
theorem append_eq_extend (buffer : Buffer α) {items : List α} (h : items ≠ []) :
    buffer.append items = buffer.extend items := by
  induction items generalizing buffer with
  | nil => exact absurd rfl h
  | cons item items ih =>
    cases items with
    | nil => simp [append, extend, push]
    | cons next items => rw [← append_push, ih _ (List.cons_ne_nil _ _)]; rfl

/-! ### Calls -/

/-- What is done to a buffer. -/
inductive Call (α : Type)
  /-- One element is put in. -/
  | push (item : α)
  /-- Elements are put in one by one. -/
  | extend (items : List α)
  /-- Elements are put in all at once. -/
  | append (items : List α)
  /-- Room is made for more elements. -/
  | reserve (count : Nat)
  /-- Only the first elements are kept. -/
  | truncate (count : Nat)
  /-- No elements are kept. -/
  | clear

/-- The buffer after a call. -/
def apply (buffer : Buffer α) : Call α → Buffer α
  | .push item => buffer.push item
  | .extend items => buffer.extend items
  | .append items => buffer.append items
  | .reserve count => buffer.reserve count
  | .truncate count => buffer.truncate count
  | .clear => buffer.clear

/-- The buffer after some calls. -/
def applyAll (buffer : Buffer α) (calls : List (Call α)) : Buffer α :=
  calls.foldl apply buffer

/-- What a call does to a plain list. -/
def Call.plain (items : List α) : Call α → List α
  | .push item => items ++ [item]
  | .extend more => items ++ more
  | .append more => items ++ more
  | .reserve _ => items
  | .truncate count => items.take count
  | .clear => []

/-- **What a call can do**: make room and then put elements in, or take elements out.

**Proof sketch.** One case for each kind of call. An extension by nothing does not make room. -/
theorem apply_cases (buffer : Buffer α) (call : Call α) :
    ∃ items : Array α, items.toList = call.plain buffer.items.toList ∧
      ((∃ count, items.size ≤ buffer.size + count ∧
        buffer.apply call = { buffer.reserve count with items := items }) ∨
      (items.size ≤ buffer.size ∧ buffer.apply call = { buffer with items := items })) := by
  cases call with
  | push item =>
    exact ⟨buffer.items.push item, Array.toList_push, .inl ⟨1, by simp [size], rfl⟩⟩
  | extend items =>
    by_cases hnil : items = []
    · subst hnil
      exact ⟨buffer.items, (List.append_nil _).symm, .inr ⟨Nat.le_refl _, rfl⟩⟩
    · refine ⟨buffer.items ++ items.toArray, by simp [Call.plain], .inl ⟨items.length, ?_, ?_⟩⟩
      · simp [size]
      · exact (buffer.append_eq_extend hnil).symm
  | append items =>
    exact ⟨buffer.items ++ items.toArray, by simp [Call.plain],
      .inl ⟨items.length, by simp [size], rfl⟩⟩
  | reserve count => exact ⟨buffer.items, rfl, .inl ⟨count, Nat.le_add_right _ _, rfl⟩⟩
  | truncate count =>
    have hsize : (buffer.items.take count).size ≤ buffer.size := by
      rw [Array.take_eq_extract, Array.size_extract]
      exact Nat.min_le_right count buffer.size
    exact ⟨buffer.items.take count, by simp [Call.plain], .inr ⟨hsize, rfl⟩⟩
  | clear => exact ⟨#[], rfl, .inr ⟨Nat.zero_le _, rfl⟩⟩

/-- **Elements are those of the plain list.** -/
theorem toList_apply (buffer : Buffer α) (call : Call α) :
    (buffer.apply call).items.toList = call.plain buffer.items.toList := by
  obtain ⟨items, hitems, ⟨count, _, heq⟩ | ⟨_, heq⟩⟩ := buffer.apply_cases call
  · rw [heq, hitems]
  · rw [heq, hitems]

/-- A buffer keeps its policy. -/
lemma growth_apply (buffer : Buffer α) (call : Call α) :
    (buffer.apply call).growth = buffer.growth := by
  obtain ⟨items, _, ⟨count, _, heq⟩ | ⟨_, heq⟩⟩ := buffer.apply_cases call
  · rw [heq]
    rfl
  · rw [heq]

/-- **A capacity never decreases.** -/
theorem capacity_le_apply (buffer : Buffer α) (call : Call α) :
    buffer.capacity ≤ (buffer.apply call).capacity := by
  obtain ⟨items, _, ⟨count, _, heq⟩ | ⟨_, heq⟩⟩ := buffer.apply_cases call
  · rw [heq]
    exact Nat.le_trans buffer.capacity_le_base (buffer.growth.suits_reach _ buffer.base).2
  · exact Nat.le_of_eq (congrArg Buffer.capacity heq).symm

/-- **The invariant of a buffer**: a buffer with a capacity has room, and one without is empty. -/
structure Roomy (buffer : Buffer α) : Prop where
  suits : 0 < buffer.capacity → Suits buffer.size buffer.capacity
  empty : buffer.capacity = 0 → buffer.size = 0

/-- An empty buffer has room. -/
lemma roomy_empty (growth : Growth) : (empty growth : Buffer α).Roomy :=
  ⟨fun h => absurd h (Nat.lt_irrefl 0), fun _ => rfl⟩

/-- **Every call keeps the room**, since room is made before elements are put in.

**Proof sketch.** After room has been made the capacity suits what there is room for, hence also the
elements that are put in. Taking elements out needs no room. -/
theorem Roomy.apply (h : buffer.Roomy) (call : Call α) : (buffer.apply call).Roomy := by
  obtain ⟨items, _, ⟨count, hsize, heq⟩ | ⟨hsize, heq⟩⟩ := buffer.apply_cases call
  · obtain ⟨hsuits, hle⟩ := buffer.growth.suits_reach (buffer.size + count) buffer.base
    have hpos := buffer.base_pos
    rw [heq]
    refine ⟨fun _ => hsuits.of_le hsize, fun hzero => ?_⟩
    rw [capacity_reserve] at hzero
    omega
  · rw [heq]
    exact ⟨fun hpos => (h.suits hpos).of_le hsize, fun hzero =>
      Nat.eq_zero_of_le_zero (Nat.le_trans hsize (Nat.le_of_eq (h.empty hzero)))⟩

/-- **What some calls keep**, by induction on them. -/
theorem Roomy.applyAll (h : buffer.Roomy) (calls : List (Call α)) :
    (buffer.applyAll calls).Roomy ∧ (buffer.applyAll calls).growth = buffer.growth ∧
      (buffer.applyAll calls).items.toList = calls.foldl Call.plain buffer.items.toList := by
  induction calls generalizing buffer with
  | nil => exact ⟨h, rfl, rfl⟩
  | cons call calls ih =>
    obtain ⟨hroomy, hgrowth, hitems⟩ := ih (h.apply call)
    refine ⟨hroomy, hgrowth.trans (buffer.growth_apply call), ?_⟩
    rw [List.foldl_cons, ← toList_apply]
    exact hitems

/-- **What holds of a buffer whatever is done to it.** Its elements are those of the plain list.
Once it has a capacity, it holds them and leaves at least a sixteenth free, or one place if that is
more; before, it is empty. No call decreases the capacity. A growth ends, at the first capacity that
suits, and below the greatest capacity exactly if no more elements are asked for than that suits. To
put elements in all at once leaves the same buffer as to put them in one by one, if there are
any. -/
theorem applyAll_lawful (growth : Growth) (calls : List (Call α)) :
    ∃ buffer : Buffer α, (empty growth).applyAll calls = buffer ∧
      buffer.items.toList = calls.foldl Call.plain [] ∧
      (0 < buffer.capacity → buffer.size ≤ buffer.capacity ∧
        max 1 (buffer.capacity / 16) ≤ buffer.capacity - buffer.size) ∧
      (buffer.capacity = 0 → buffer.size = 0) ∧
      (∀ call, buffer.capacity ≤ (buffer.apply call).capacity) ∧
      (∀ count, ∃ rounds, rounds ≤ 2 * (buffer.size + count) + 2 - buffer.base ∧
        (buffer.reserve count).capacity = growth.next^[rounds] buffer.base ∧
        Suits (buffer.size + count) (growth.next^[rounds] buffer.base) ∧
        ∀ earlier < rounds, ¬Suits (buffer.size + count) (growth.next^[earlier] buffer.base)) ∧
      (∀ count, buffer.base ≤ maxCapacity →
        ((buffer.reserve count).capacity ≤ maxCapacity ↔
          buffer.size + count ≤ Growth.maxCount)) ∧
      ∀ items : List α, items ≠ [] → buffer.append items = items.foldl push buffer := by
  obtain ⟨hroomy, hgrowth, hitems⟩ := (@roomy_empty α growth).applyAll calls
  generalize (empty growth).applyAll calls = buffer at *
  obtain rfl : buffer.growth = growth := hgrowth
  exact ⟨buffer, rfl, hitems, hroomy.suits, hroomy.empty, buffer.capacity_le_apply,
    fun count => buffer.growth.exists_rounds (buffer.size + count) buffer.base,
    fun _ hbase => buffer.growth.reach_le_maxCapacity_iff hbase,
    fun _ hsome => buffer.append_eq_extend hsome⟩

end Buffer

end Proximity

import Mathlib.Logic.Function.Basic
import Proximity.Proofs.Records.Limits
import Proximity.Proofs.Registration.Atomicity
import Proximity.Proofs.Registration.Resemblance

set_option relaxedAutoImplicit false
set_option autoImplicit false

/-!
# Session seeds

The seed of a session is mixed from the configured seed and the number of nodes. Every step of the
mixing can be undone: an addition, a multiplication by an odd number, and the exclusive or with a
shifted copy, which leaves the highest bits as they are and through them gives away all others. So
different words mix to different words, and two seeds differ as soon as the two sessions differ in
one of the two things that a seed is made from.

## Main definitions

* `Proximity.xorShift` — a word combined with a shifted copy of itself.
* `Proximity.Registration.startSeed` — the seed that a session has been opened with.

## Main results

* `Proximity.mix64_injective` — different words mix to different words.
* `Proximity.Registration.seeds_apart` — sessions at different sizes start from different seeds, and
  so do sessions under different configured seeds.
-/

namespace Proximity

/-! ## Mixing -/

/-- A word combined with a copy of itself that is shifted right. -/
def xorShift (shift x : UInt64) : UInt64 :=
  x ^^^ (x >>> shift)

/-- The mixing, step by step. -/
lemma mix64_eq (x : UInt64) :
    mix64 x = xorShift 31 (xorShift 27 (xorShift 30 (x + 0x9e3779b97f4a7c15) * 0xbf58476d1ce4e5b9) *
      0x94d049bb133111eb) :=
  rfl

/-- Only zero stays as it is when it is shifted. -/
lemma eq_zero_of_shiftRight_eq {shift x : UInt64} (hpos : 0 < shift) (hlt : shift < 64)
    (h : x >>> shift = x) : x = 0 := by
  have hshift : 0 < shift.toNat % 64 := by
    rw [UInt64.lt_iff_toNat_lt] at hpos hlt
    exact (Nat.mod_eq_of_lt hlt).symm ▸ hpos
  have hdiv : x.toNat / 2 ^ (shift.toNat % 64) = x.toNat := by
    rw [← Nat.shiftRight_eq_div_pow, ← UInt64.toNat_shiftRight, h]
  refine UInt64.toNat_inj.mp (Nat.eq_zero_of_not_pos fun hx => ?_)
  exact absurd hdiv (Nat.div_lt_self hx (Nat.one_lt_two_pow hshift.ne')).ne

/-- A shift to the right that is added without carry can be undone. -/
lemma xorShift_injective {shift : UInt64} (hpos : 0 < shift) (hlt : shift < 64) :
    Function.Injective (xorShift shift) := by
  intro x y h
  -- what the two words differ in stays as it is when it is shifted
  have hdifference : (x ^^^ y) >>> shift = x ^^^ y := by
    have hzero : (x ^^^ y) ^^^ ((x ^^^ y) >>> shift) = 0 := by
      rw [UInt64.shiftRight_xor]
      calc x ^^^ y ^^^ (x >>> shift ^^^ y >>> shift)
          = xorShift shift x ^^^ xorShift shift y := by unfold xorShift; ac_rfl
        _ = 0 := by rw [h, UInt64.xor_self]
    exact (UInt64.xor_eq_zero_iff.mp hzero).symm
  exact UInt64.xor_eq_zero_iff.mp (eq_zero_of_shiftRight_eq hpos hlt hdifference)

/-- Multiplication by a number with an inverse can be undone. -/
lemma mul_right_injective_of_inverse {factor inverse : UInt64} (h : factor * inverse = 1) :
    Function.Injective fun x : UInt64 => x * factor := by
  have hback : Function.LeftInverse (fun x => x * inverse) fun x => x * factor := fun x => by
    change x * factor * inverse = x
    rw [UInt64.mul_assoc, h, UInt64.mul_one]
  exact hback.injective

/-- **Different words mix to different words.** -/
theorem mix64_injective : Function.Injective mix64 := by
  intro x y h
  rw [mix64_eq, mix64_eq] at h
  have hsecond : (0x94d049bb133111eb : UInt64) * 0x319642b2d24d8ec3 = 1 := by decide
  have hfirst : (0xbf58476d1ce4e5b9 : UInt64) * 0x96de1b173f119089 = 1 := by decide
  replace h := mul_right_injective_of_inverse hsecond (xorShift_injective (by decide) (by decide) h)
  replace h := mul_right_injective_of_inverse hfirst (xorShift_injective (by decide) (by decide) h)
  exact (UInt64.add_left_inj _).mp (xorShift_injective (by decide) (by decide) h)

/-! ## Seeds -/

/-- From one number of the configuration, different numbers of nodes give different seeds. -/
lemma sessionSeed_injective (base : UInt64) : Function.Injective (sessionSeed base) :=
  fun _ _ h => mix64_injective ((UInt64.xor_right_inj _).mp (mix64_injective h))

/-- For one number of nodes, different numbers of the configuration give different seeds. -/
lemma sessionSeed_injective_base (nodeCount : UInt64) :
    Function.Injective fun base => sessionSeed base nodeCount :=
  fun _ _ h => (UInt64.xor_left_inj _).mp (mix64_injective h)

/-- A header that is found has numbers that can be stored. -/
lemma GraphHeader.fits_of_find {view : Snapshot} {name : String} {header : GraphHeader}
    (h : find view name = .ok header) : header.Fits := by
  unfold find at h
  split at h
  · exact fits_of_decode h
  · rw [← Except.ok.inj h]
    exact ⟨by decide, by decide, by decide, by decide⟩

namespace Registration

/-- The seed that a session has been opened with under a configuration. -/
def startSeed (config : Config) (session : Registration) : UInt64 :=
  sessionSeed (UInt64.ofNat config.seed) (UInt64.ofNat session.graph.header.nodeCount)

/-- The number of nodes that a session finds is a machine word. -/
lemma nodeCount_lt_of_start {config : Config} {txn : WriteTransaction} {name : String}
    {session : Registration} (h : start config txn name = .ok session) :
    session.graph.header.nodeCount < UInt64.size := by
  obtain ⟨field, _, h⟩ := Except.bind_eq_ok_iff.mp h
  obtain ⟨graph, hgraph, h⟩ := Except.bind_eq_ok_iff.mp h
  obtain ⟨header, hheader, hgraph⟩ := Except.bind_eq_ok_iff.mp hgraph
  rw [← Except.ok.inj h, ← Except.ok.inj hgraph]
  exact (GraphHeader.fits_of_find hheader).nodeCount

/-- **Seeds never collide**: under one configured seed a seed belongs to one number of nodes, and at
one number of nodes to one configured seed. Two sessions that have been opened on any
fields draw their levels from their seeds, which are the same under one configured seed only if they
have found the same number of nodes, and at one number of nodes only if the configured seeds are
equal.

**Proof sketch.** The seed is a bijection of either number for a fixed other one, and both numbers
fit in 64 bits. -/
theorem seeds_apart :
    (∀ base, Function.Injective (sessionSeed base)) ∧
    (∀ nodeCount, Function.Injective fun base => sessionSeed base nodeCount) ∧
    ∀ {config config' : Config} {txn txn' : WriteTransaction} {name name' : String}
      {session session' : Registration}, start config txn name = .ok session →
      start config' txn' name' = .ok session' →
      session.generator = .ofSeed (startSeed config session) ∧
      session'.generator = .ofSeed (startSeed config' session') ∧
      (config.seed = config'.seed → (startSeed config session = startSeed config' session' ↔
        session.graph.header.nodeCount = session'.graph.header.nodeCount)) ∧
      (session.graph.header.nodeCount = session'.graph.header.nodeCount →
        config.seed < UInt64.size → config'.seed < UInt64.size →
        (startSeed config session = startSeed config' session' ↔ config.seed = config'.seed)) := by
  refine ⟨sessionSeed_injective, sessionSeed_injective_base, ?_⟩
  intro config config' txn txn' name name' session session' hstart hstart'
  have hword : ∀ {a b : Nat}, a < UInt64.size → b < UInt64.size →
      (UInt64.ofNat a = UInt64.ofNat b ↔ a = b) := fun ha hb => by
    rw [← UInt64.toNat_inj, UInt64.toNat_ofNat_of_lt' ha, UInt64.toNat_ofNat_of_lt' hb]
  refine ⟨generator_of_start hstart, generator_of_start hstart', fun hbase => ?_,
    fun hcount hseed hseed' => ?_⟩
  · rw [startSeed, startSeed, hbase, (sessionSeed_injective _).eq_iff]
    exact hword (nodeCount_lt_of_start hstart) (nodeCount_lt_of_start hstart')
  · rw [startSeed, startSeed, hcount, (sessionSeed_injective_base _).eq_iff]
    exact hword hseed hseed'

/-- The record of a field with two edges for each node. -/
def sparse : FieldRecord :=
  ⟨"f", .ofShape 2 1, 0⟩

/-- A session can be opened on a field with any number of nodes. -/
lemma exists_start_counting (config : Config) {nodes : Nat} (h : nodes < 2 ^ 64) :
    ∃ session, start config (describing sparse { GraphHeader.blank with nodeCount := nodes }) "f" =
      .ok session ∧ session.graph.header.nodeCount = nodes := by
  have hzero : 0 < 2 ^ 64 := by decide
  obtain ⟨session, hstart, _, _, hheader, _⟩ := @exists_start_describing config sparse
    { GraphHeader.blank with nodeCount := nodes } (by decide)
    ⟨by decide, ⟨by decide, by decide, by decide⟩, by decide⟩ ⟨hzero, h, hzero, hzero⟩
  exact ⟨session, hstart, by rw [hheader]⟩

/-- A session on a field without vectors and one on the field with a vector start from different
seeds, and so do two on the field under different configured seeds. -/
theorem exists_seeds_apart : ∃ empty filled other,
    start {} (describing sparse { GraphHeader.blank with nodeCount := 0 }) "f" = .ok empty ∧
      start {} (describing sparse { GraphHeader.blank with nodeCount := 1 }) "f" = .ok filled ∧
      start { seed := 455 } (describing sparse { GraphHeader.blank with nodeCount := 1 }) "f" =
        .ok other ∧
      startSeed {} empty ≠ startSeed {} filled ∧
      startSeed {} filled ≠ startSeed { seed := 455 } other := by
  obtain ⟨empty, hempty, hnone⟩ := exists_start_counting {} (show 0 < 2 ^ 64 by decide)
  obtain ⟨filled, hfilled, hone⟩ := exists_start_counting {} (show 1 < 2 ^ 64 by decide)
  obtain ⟨other, hother, hone'⟩ :=
    exists_start_counting { seed := 455 } (show 1 < 2 ^ 64 by decide)
  obtain ⟨_, _, hsizes, _⟩ := seeds_apart.2.2 hempty hfilled
  obtain ⟨_, _, _, hseeds⟩ := seeds_apart.2.2 hfilled hother
  refine ⟨empty, filled, other, hempty, hfilled, hother, fun h => ?_, fun h => ?_⟩
  · have hcount := (hsizes rfl).mp h
    rw [hnone, hone] at hcount
    exact absurd hcount (by decide)
  · exact absurd ((hseeds (by rw [hone, hone']) (by decide) (by decide)).mp h) (by decide)

end Registration

end Proximity

import Mathlib.Tactic.ByContra
import Mathlib.Tactic.SplitIfs
import Proximity.Embedding.Codec
import Proximity.Proofs.Except

set_option relaxedAutoImplicit false
set_option autoImplicit false

/-!
# Accepted options and encodings

The options that a field can be created with leave a graph room to grow and name a conversion that
exists, so that a given vector can only be refused for its own form. What is stored has some bytes.

## Main definitions

* `Proximity.FieldOptions.Accepted` — the options that a field can be created with.
* `Proximity.Precision.IsVector` — the bytes that are a vector of a precision.

## Main results

* `Proximity.FieldOptions.validate_eq_ok_iff` — the options that are accepted.
* `Proximity.exists_encodeVector_iff` — the vectors that have a stored form.
* `Proximity.length_encodeVector` — the length of a stored form.
* `Proximity.encodeVector_eq_error` — the only fault that an encoding finds.
-/

namespace Proximity

/-! ## Options -/

namespace FieldOptions

/-- What is true of the options that a field can be created with. -/
structure Accepted (options : FieldOptions) : Prop where
  two_le_edges : 2 ≤ options.edges
  edges_le : options.edges ≤ maxEdges
  candidates_pos : 0 < options.candidates
  converts : options.source = .single ∨ options.source = options.destination
  whole : options.source = .single → options.vectorBytes % 4 = 0

/-- The options that are accepted are those within the limits.

**Proof sketch.** The checks are made one after the other, and each of them is one part of being
accepted. -/
theorem validate_eq_ok_iff {options : FieldOptions} :
    options.validate = .ok () ↔ options.Accepted := by
  simp only [validate, Except.throw_eq_error, Except.error_bind, Except.pure_eq_ok]
  constructor
  · intro h
    split_ifs at h with hedges hcandidates hconverts hwhole
    simp only [Bool.or_eq_true, decide_eq_true_eq, not_or, Nat.not_lt] at hedges
    exact {
      two_le_edges := hedges.1
      edges_le := hedges.2
      candidates_pos := Nat.pos_of_ne_zero hcandidates
      converts := by
        by_contra hnot
        rw [not_or] at hnot
        exact hconverts hnot
      whole := fun hsingle => by
        by_contra hnot
        exact hwhole ⟨hsingle, hnot⟩ }
  · intro h
    have hedges := h.two_le_edges
    have hle := h.edges_le
    have hpos := h.candidates_pos
    rw [if_neg (by simp; omega), if_neg (by omega), if_neg (fun hnot =>
      h.converts.elim hnot.1 hnot.2), if_neg fun hnot => hnot.2 (h.whole hnot.1)]

end FieldOptions

/-! ## Encodings -/

/-- A vector in no form that the precision allows is reported as corrupt. -/
lemma Encoding.check_eq_error {precision : Precision} {raw : Bytes} {e : IndexError}
    (h : check precision raw = .error e) : ∃ reason, e = .corruptInput reason := by
  cases precision <;>
    simp only [check, Except.throw_eq_error, Except.error_bind, Except.pure_eq_ok] at h <;>
    split_ifs at h <;> exact ⟨_, (Except.error.inj h).symm⟩

/-- The bytes are a vector of a precision: finite numbers and at least one, some bytes before a
scale, or some bits. -/
def Precision.IsVector : Precision → Bytes → Prop
  | .single, raw => raw ≠ [] ∧ raw.length % 4 = 0 ∧ ∀ x ∈ Single.listOfBytes raw, x.isFinite = true
  | .int8, raw => Distance.scaleWidth < raw.length
  | .binary, raw => raw ≠ []

/-- **The check of a vector passes exactly if it is one** of its precision.

**Proof sketch.** By cases on the precision; only single numbers are looked at one by one. -/
theorem Encoding.check_eq_ok_iff {precision : Precision} {raw : Bytes} :
    check precision raw = .ok () ↔ precision.IsVector raw := by
  cases precision with
  | single =>
    simp only [check, Precision.IsVector, Except.throw_eq_error, Except.error_bind,
      Except.pure_eq_ok]
    constructor
    · intro h
      split_ifs at h with hform hfinite
      simp only [Bool.or_eq_true, List.isEmpty_iff, decide_eq_true_eq, not_or, ne_eq,
        Decidable.not_not] at hform
      refine ⟨hform.1, hform.2, fun x hx => ?_⟩
      simpa using (List.any_eq_false.mp (Bool.eq_false_iff.mpr hfinite)) x hx
    · rintro ⟨hsome, hfour, hfinite⟩
      rw [if_neg (by simp [hsome, hfour]), if_neg (by simpa using hfinite)]
  | int8 =>
    simp only [check, Precision.IsVector, Except.throw_eq_error, Except.pure_eq_ok]
    split_ifs with hshort
    · simpa using hshort
    · simpa using hshort
  | binary =>
    simp only [check, Precision.IsVector, Except.throw_eq_error, Except.pure_eq_ok]
    cases raw <;> simp

/-- A vector that is in the form of its precision is not empty, and single numbers take four
bytes. -/
lemma Encoding.pos_of_check {precision : Precision} {raw : Bytes}
    (h : check precision raw = .ok ()) :
    0 < raw.length ∧ (precision = .single → raw.length % 4 = 0) := by
  have hvector := check_eq_ok_iff.mp h
  cases precision with
  | single => exact ⟨List.length_pos_iff.mpr hvector.1, fun _ => hvector.2.1⟩
  | int8 => exact ⟨Nat.zero_lt_of_lt hvector, by simp⟩
  | binary => exact ⟨List.length_pos_iff.mpr hvector, by simp⟩

/-- Every four bytes are read as a number.

**Proof sketch.** Induction along the reading: it takes four bytes at a time, and what is left over
is shorter. -/
lemma Single.length_readAll (read : List Single) (bytes : Bytes) :
    (readAll read bytes).length = read.length + bytes.length / 4 := by
  fun_induction readAll read bytes with
  | case1 read b₀ b₁ b₂ b₃ rest ih =>
    rw [ih]
    simp only [List.length_cons]
    omega
  | case2 bytes read hshort =>
    have hlt : bytes.length < 4 := by
      rcases bytes with _ | ⟨b₀, _ | ⟨b₁, _ | ⟨b₂, _ | ⟨b₃, rest⟩⟩⟩⟩
      · simp
      · simp
      · simp
      · simp
      · exact (hshort b₀ b₁ b₂ b₃ rest rfl).elim
    rw [List.length_reverse]
    omega

/-- There is a number for every four bytes. -/
lemma Single.length_listOfBytes (bytes : Bytes) :
    (listOfBytes bytes).length = bytes.length / 4 := by
  rw [listOfBytes, length_readAll, List.length_nil, Nat.zero_add]

/-- Bits are packed in eights. -/
lemma Encoding.length_packBits (bits : List Bool) :
    (packBits bits).length = (bits.length + 7) / 8 := by
  fun_induction packBits bits with
  | case1 => rfl
  | case2 bit bits ih =>
    rw [List.length_cons, ih, List.length_drop, List.length_cons]
    omega

/-- The length of the stored form of a vector of some length. -/
def encodedLength : (source destination : Precision) → (length : Nat) → Nat
  | .single, .int8, length => length / 4 + 4
  | .single, .binary, length => (length / 4 + 7) / 8
  | _, _, length => length

/-- **The length of a stored form** depends on the length of the given vector only, and it is
positive.

**Proof sketch.** By cases on the two precisions. The number of bytes of a reduced vector follows
from the number of components. -/
theorem length_encodeVector {source destination : Precision} {raw stored : Bytes}
    (h : encodeVector source destination raw = .ok stored) :
    stored.length = encodedLength source destination raw.length ∧ 0 < stored.length := by
  obtain ⟨_, hcheck, hrest⟩ := Except.bind_eq_ok_iff.mp h
  obtain ⟨hpos, hfour⟩ := Encoding.pos_of_check hcheck
  cases source <;> cases destination <;>
    simp only [Except.pure_eq_ok, Except.throw_eq_error, Except.ok.injEq, reduceCtorEq] at hrest <;>
    subst hrest
  · exact ⟨rfl, hpos⟩
  · simp [Encoding.toInt8, Single.toBytes, encodedLength, Single.length_listOfBytes]
  · have hmod := hfour rfl
    simp only [Encoding.toBinary, encodedLength, Encoding.length_packBits, List.length_map,
      Single.length_listOfBytes, true_and]
    omega
  · exact ⟨rfl, hpos⟩
  · exact ⟨rfl, hpos⟩

/-- An encoded vector is longer by no more than the four bytes of its scale. -/
lemma encodedLength_le (source destination : Precision) (length : Nat) :
    encodedLength source destination length ≤ length + 4 := by
  unfold encodedLength
  split <;> omega

/-- A vector loses no more than what there is between a number and its sign. -/
lemma le_encodedLength (source destination : Precision) (length : Nat) :
    length ≤ 32 * encodedLength source destination length + 3 := by
  unfold encodedLength
  split <;> omega

/-- **The only fault that an encoding finds** is that the vector does not have the form of its
precision, where there is a conversion.

**Proof sketch.** The check comes before the conversion, which cannot fail where there is one. -/
theorem encodeVector_eq_error {source destination : Precision} {raw : Bytes} {e : IndexError}
    (hconverts : source = .single ∨ source = destination)
    (h : encodeVector source destination raw = .error e) : ∃ reason, e = .corruptInput reason := by
  unfold encodeVector at h
  cases hcheck : Encoding.check source raw with
  | error e' =>
    rw [hcheck, Except.error_bind, Except.error.injEq] at h
    exact h ▸ Encoding.check_eq_error hcheck
  | ok _ =>
    rw [hcheck, Except.ok_bind] at h
    cases source <;> cases destination <;> simp at h hconverts

/-- **A vector has a stored form exactly if it is one** of its precision, where there is a
conversion.

**Proof sketch.** The check passes if and only if the vector has the form, and the conversion cannot
fail where there is one. -/
theorem exists_encodeVector_iff {source destination : Precision} {raw : Bytes}
    (hconverts : source = .single ∨ source = destination) :
    (∃ stored, encodeVector source destination raw = .ok stored) ↔ source.IsVector raw := by
  rw [← Encoding.check_eq_ok_iff]
  constructor
  · rintro ⟨stored, h⟩
    obtain ⟨_, hcheck, _⟩ := Except.bind_eq_ok_iff.mp h
    exact hcheck
  · intro hcheck
    unfold encodeVector
    rw [hcheck, Except.ok_bind]
    cases source <;> cases destination <;> simp at hconverts ⊢
end Proximity

import Proximity.Proofs.Embedding
import Proximity.Proofs.Single.Arithmetic

set_option autoImplicit false
set_option relaxedAutoImplicit false

/-!
# Undefined distances

Some pairs of embeddings have no distance, and then no score: the arithmetic on their components
answers something that is not a number. It is shown which pairs these are. Components are finite
where they are given in single precision, so that the length of a difference is always defined; the
cosine is not, where the scalar product and the lengths are too great for the format. The scale of a
signed byte embedding can be anything, so that two scaled components need not have a difference;
their cosine does without the scales. Bits always have a distance.

## Main definitions

* `Proximity.Distance.isUndefined` — whether two embeddings have no distance, by the intermediate
  results.

## Main results

* `Proximity.isNaN_distance` — the distances that are not numbers.
* `Proximity.Codec.isNaN_score` — a score is a number if the distance is.
-/

namespace Proximity

namespace Distance

/-! ## Criteria -/

/-- The scalar product of two lists of components, summed up from zero. -/
def scalarProduct (xs ys : List Single) : Single :=
  (xs.zip ys).foldl (fun sum pair => sum + pair.1 * pair.2) .zero

/-- The components of a signed byte embedding, each multiplied by the scale. -/
def scaledComponents (bytes : Bytes) : List Single :=
  (int8Components bytes).map fun component => .ofInt component * int8Scale bytes

/-- Whether a cosine is undefined: neither embedding has length zero, and the scalar product is not
a number, or it is infinite and so is the product of the lengths. -/
def isCosineUndefined (dot squareA squareB : Single) : Bool :=
  !squareA.equal .zero && !squareB.equal .zero &&
    (dot.isNaN || !dot.isFinite && !(squareA.sqrt * squareB.sqrt).isFinite)

/-- **Whether two embeddings have no distance.** In single precision there can be no cosine; of
signed bytes there can be two scaled components without a difference. -/
def isUndefined : Precision → Metric → Bytes → Bytes → Bool
  | .single, .cosine, a, b =>
    let xs := Single.listOfBytes a
    let ys := Single.listOfBytes b
    isCosineUndefined (scalarProduct xs ys) (scalarProduct xs xs) (scalarProduct ys ys)
  | .int8, .euclidean, a, b =>
    ((scaledComponents a).zip (scaledComponents b)).any fun pair => (pair.1 - pair.2).isNaN
  | _, _, _, _ => false

/-! ## The cosine -/

/-- The three sums of the cosine distance can be taken one by one. -/
lemma cosineFrom_eq (dot squareA squareB : Single) {xs ys : List Single}
    (hlength : xs.length = ys.length) :
    cosineFrom dot squareA squareB xs ys = ofProducts
      ((xs.zip ys).foldl (fun sum pair => sum + pair.1 * pair.2) dot)
      ((xs.zip xs).foldl (fun sum pair => sum + pair.1 * pair.2) squareA)
      ((ys.zip ys).foldl (fun sum pair => sum + pair.1 * pair.2) squareB) := by
  induction xs generalizing ys dot squareA squareB with
  | nil =>
    obtain rfl := List.length_eq_zero_iff.mp hlength.symm
    rfl
  | cons x xs ih =>
    cases ys with
    | nil => exact absurd hlength nofun
    | cons y ys =>
      rw [cosineFrom, ih _ _ _ (Nat.succ.inj hlength)]
      rfl

/-- The cosine of lengths that are not below zero. -/
lemma isNaN_ofProducts {dot squareA squareB : Single} (hA : squareA.Nonneg)
    (hB : squareB.Nonneg) :
    (ofProducts dot squareA squareB).isNaN = isCosineUndefined dot squareA squareB := by
  rw [ofProducts, isCosineUndefined]
  split_ifs with hzero
  · rw [← Bool.not_or, hzero]
    rfl
  · rw [← Bool.not_or, Bool.eq_false_iff.mpr hzero]
    rw [Bool.or_eq_true, not_or] at hzero
    obtain ⟨hnumber, hproduct⟩ := hA.mul_sqrt hB hzero.1 hzero.2
    rw [Bool.eq_iff_iff, Single.isNaN_sub_iff (by decide),
      Single.isNaN_clamp_iff (by decide) (by decide), Single.isNaN_div_iff hnumber hproduct]
    simp

/-- The sum of the squares is not below zero. -/
lemma nonneg_scalarProduct_self {xs : List Single} (hfinite : ∀ x ∈ xs, x.isFinite = true) :
    (scalarProduct xs xs).Nonneg := by
  have hsum : ∀ sum : Single, sum.Nonneg →
      ((xs.zip xs).foldl (fun sum pair => sum + pair.1 * pair.2) sum).Nonneg := by
    induction xs with
    | nil => exact fun sum hsum => hsum
    | cons x xs ih =>
      intro sum hsum
      have hsquare := Single.Nonneg.mul_self (Single.not_isNaN_of_isFinite
        (hfinite x List.mem_cons_self))
      exact ih (fun x hx => hfinite x (List.mem_cons_of_mem _ hx)) _ (hsum.add hsquare)
  exact hsum .zero Single.Nonneg.zero

/-! ## The length of the difference -/

/-- Once the sum is not a number, it stays so. -/
lemma isNaN_euclideanFrom_of_isNaN {sum : Single} (hsum : sum.isNaN = true)
    (xs ys : List Single) : (euclideanFrom sum xs ys).isNaN = true := by
  fun_induction euclideanFrom sum xs ys with
  | case1 sum x xs y ys ih => exact ih (Single.isNaN_add (.inl hsum))
  | case2 xs sum ys => exact Single.isNaN_sqrt hsum

/-- The length of a difference is defined if every component of it is.

**Proof sketch.** Induction along the sum. A square of a number is not below zero, so that the sum
stays a number as long as each difference is one. -/
lemma isNaN_euclideanFrom {sum : Single} (hsum : sum.Nonneg) (xs ys : List Single) :
    (euclideanFrom sum xs ys).isNaN =
      (xs.zip ys).any fun pair => (pair.1 - pair.2).isNaN := by
  fun_induction euclideanFrom sum xs ys with
  | case1 sum x xs y ys ih =>
    rw [List.zip_cons_cons, List.any_cons]
    by_cases hnan : (x - y).isNaN = true
    · have hsquare := Single.isNaN_mul_self_iff.mpr hnan
      rw [hnan, Bool.true_or]
      exact isNaN_euclideanFrom_of_isNaN (Single.isNaN_add (.inr hsquare)) xs ys
    · rw [ih (hsum.add (.mul_self hnan)), Bool.eq_false_iff.mpr hnan, Bool.false_or]
  | case2 xs sum ys hshort =>
    have hnil : xs.zip ys = [] := by
      rcases xs with _ | ⟨x, xs⟩
      · rfl
      · rcases ys with _ | ⟨y, ys⟩
        · rfl
        · exact (hshort x xs y ys rfl rfl).elim
    rw [hnil, Bool.eq_false_iff.mpr hsum.sqrt.not_isNaN]
    rfl

/-- No vector has a negative square. -/
lemma nonneg_dotProduct_self (xs : List Int) : 0 ≤ dotProduct xs xs := by
  have hsum : ∀ sum : Int, 0 ≤ sum →
      0 ≤ (xs.zip xs).foldl (fun sum pair => sum + pair.1 * pair.2) sum := by
    induction xs with
    | nil => exact fun sum hsum => hsum
    | cons x xs ih =>
      intro sum hsum
      refine ih _ (Int.add_nonneg hsum ?_)
      rw [← Int.natAbs_mul_self' x]
      exact Int.mul_nonneg (Int.natCast_nonneg _) (Int.natCast_nonneg _)
  exact hsum 0 (Int.le_refl 0)

end Distance

/-! ## Stored forms -/

/-- What is stored in single precision has finite components. -/
lemma isFinite_of_encodeVector {source : Precision} {raw stored : Bytes}
    (h : encodeVector source .single raw = .ok stored) :
    ∀ x ∈ Single.listOfBytes stored, x.isFinite = true := by
  obtain ⟨_, hcheck, hrest⟩ := Except.bind_eq_ok_iff.mp h
  cases source with
  | single =>
    simp only [Except.pure_eq_ok, Except.ok.injEq] at hrest
    subst hrest
    simp only [Encoding.check, Except.throw_eq_error, Except.error_bind, Except.pure_eq_ok]
      at hcheck
    split_ifs at hcheck with hlength hfinite
    simpa using hfinite
  | int8 => simp at hrest
  | binary => simp at hrest

variable {source destination : Precision} {rawA rawB a b : Bytes}

/-- **The distances that are not numbers** are those of pairs whose distance is undefined.

**Proof sketch.** By the three precisions and two metrics. Where whole numbers are added up, no
distance is undefined. -/
theorem isNaN_distance (ha : encodeVector source destination rawA = .ok a)
    (hb : encodeVector source destination rawB = .ok b) (hlength : a.length = b.length)
    (metric : Metric) :
    (distance destination metric a b).isNaN = Distance.isUndefined destination metric a b := by
  cases destination with
  | single =>
    have hfiniteA := isFinite_of_encodeVector ha
    have hfiniteB := isFinite_of_encodeVector hb
    cases metric with
    | cosine =>
      have hlengths : (Single.listOfBytes a).length = (Single.listOfBytes b).length := by
        rw [Single.length_listOfBytes, Single.length_listOfBytes, hlength]
      rw [distance, Distance.cosine, Distance.cosineFrom_eq _ _ _ hlengths]
      exact Distance.isNaN_ofProducts (Distance.nonneg_scalarProduct_self hfiniteA)
        (Distance.nonneg_scalarProduct_self hfiniteB)
    | euclidean =>
      rw [distance, Distance.euclidean, Distance.isNaN_euclideanFrom .negativeZero]
      refine List.any_eq_false.mpr fun pair hpair => ?_
      obtain ⟨hx, hy⟩ := List.of_mem_zip hpair
      rw [Single.isNaN_sub_iff (hfiniteA _ hx)]
      exact Single.not_isNaN_of_isFinite (hfiniteB _ hy)
  | int8 =>
    cases metric with
    | cosine =>
      rw [distance, Distance.cosineInt8, Distance.isNaN_ofProducts
        (Single.nonneg_ofInt (Distance.nonneg_dotProduct_self _))
        (Single.nonneg_ofInt (Distance.nonneg_dotProduct_self _)),
        Distance.isCosineUndefined, Single.isFinite_ofInt,
        Bool.eq_false_iff.mpr (Single.not_isNaN_of_isFinite (Single.isFinite_ofInt _))]
      simp [Distance.isUndefined]
    | euclidean => exact Distance.isNaN_euclideanFrom .negativeZero _ _
  | binary => exact Bool.eq_false_iff.mpr (Single.not_isNaN_of_isFinite (Single.isFinite_ofNat _))

/-- **A score is a number if the distance is.**

**Proof sketch.** By the form of the score: the number that is divided by is not zero. -/
theorem Codec.isNaN_score (codec : Codec) (distance : Single) {vectorLength : Nat}
    (hlength : vectorLength * 8 < 2 ^ 64) :
    (codec.score distance vectorLength).isNaN = distance.isNaN := by
  have hbits : ¬(Single.ofNat (max (vectorLength * 8) 1)).equal .zero = true :=
    Single.ofNat_ne_zero (by omega) (by omega)
  rw [Bool.eq_iff_iff, Codec.score]
  split
  · rw [Single.isNaN_sub_iff (by decide), Single.isNaN_div_iff
      (Single.not_isNaN_of_isFinite (Single.isFinite_ofNat _)) hbits]
    simp [Single.isFinite_ofNat]
  · exact Single.isNaN_sub_iff (by decide)
  · rw [Single.isNaN_one_div_iff, Single.isNaN_add_iff (by decide)]

end Proximity

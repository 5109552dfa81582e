import NNeBPF.Library.FixedWidth
import NNeBPF.Mlp.Network

/-!
# When the scaler is exact

`standard_scaler` subtracts on the side where the difference is not negative, multiplies by `2^16`
in 64 bits, divides, narrows to 32 bits and negates on one side.  No step checks its range.  The
steps are exact, and the result is the truncated quotient, exactly if the distance from the mean is
below `2^48` and below `2^15` times the scale; between such features the scaler is monotone.
-/

namespace NNeBPF.Mlp

/-- The difference that `standard_scaler` takes. -/
def distance (x mean : S64) : U64 := if x.slt mean then mean - x else x - mean

/-- The quotient before it is narrowed. -/
def quotient (x mean scale : S64) : U64 := distance x mean * 65536 / scale

/-- No step of the scaler changes a value, and the result is the truncated quotient. -/
structure Lossless (x mean scale : S64) : Prop where
  product : (distance x mean * 65536).toNat = (distance x mean).toNat * 65536
  narrowing : ((quotient x mean scale).setWidth 32).toInt = (quotient x mean scale).toNat
  negation : x.slt mean = true → (-(quotient x mean scale).setWidth 32).toInt =
    -((quotient x mean scale).setWidth 32).toInt
  exact : (scaleFeature x mean scale).toInt = ((x.toInt - mean.toInt) * 65536).tdiv scale.toInt

section

variable {x mean scale : S64}

theorem scaleFeature_eq (x mean scale : S64) :
    scaleFeature x mean scale =
      if x.slt mean then -(quotient x mean scale).setWidth 32
      else (quotient x mean scale).setWidth 32 := by
  unfold scaleFeature quotient distance
  split <;> rfl

/-- The distance is taken without loss, whatever the signs are. -/
theorem toNat_distance (x mean : S64) : ((distance x mean).toNat : ℤ) = |x.toInt - mean.toInt| := by
  have hx := BitVec.toInt_eq_toNat_cond x
  have hmean := BitVec.toInt_eq_toNat_cond mean
  have hxlt := x.isLt
  have hmeanlt := mean.isLt
  unfold distance
  by_cases hlt : x.slt mean = true
  · have hint : x.toInt < mean.toInt := BitVec.slt_iff_toInt_lt.mp hlt
    rw [if_pos hlt, BitVec.toNat_sub, abs_of_neg (by omega)]
    split_ifs at hx hmean <;> omega
  · have hint : mean.toInt ≤ x.toInt := not_lt.mp fun h ↦ hlt (BitVec.slt_iff_toInt_lt.mpr h)
    rw [if_neg hlt, BitVec.toNat_sub, abs_of_nonneg (by omega)]
    split_ifs at hx hmean <;> omega

theorem toNat_product_eq_iff (x mean : S64) :
    (distance x mean * 65536).toNat = (distance x mean).toNat * 65536 ↔
      |x.toInt - mean.toInt| < 2 ^ 48 := by
  have hword : (65536 : U64).toNat = 65536 := rfl
  rw [← toNat_distance, BitVec.toNat_mul, hword]
  have hlt := (distance x mean).isLt
  constructor <;> omega

/-- Narrowing keeps a non-negative word exactly if it is below `2^31`. -/
theorem toInt_narrowed_eq_iff (q : U64) : (q.setWidth 32).toInt = q.toNat ↔ q.toNat < 2 ^ 31 := by
  have hlt := q.isLt
  rw [BitVec.toInt_eq_toNat_cond, BitVec.toNat_setWidth]
  split_ifs <;> omega

theorem toNat_quotient (hscale : 0 < scale.toInt)
    (hproduct : |x.toInt - mean.toInt| < 2 ^ 48) :
    ((quotient x mean scale).toNat : ℤ) = |x.toInt - mean.toInt| * 65536 / scale.toInt := by
  have hnat : (scale.toNat : ℤ) = scale.toInt := by
    have hcond := BitVec.toInt_eq_toNat_cond scale
    split_ifs at hcond <;> omega
  rw [quotient, BitVec.toNat_udiv, (toNat_product_eq_iff x mean).mpr hproduct]
  push_cast
  rw [toNat_distance, hnat]

/-- With a product that is not wrapped, the quotient is below `2^31` exactly if the distance is
below `2^15` times the scale. -/
theorem toNat_quotient_lt_iff (hscale : 0 < scale.toInt)
    (hproduct : |x.toInt - mean.toInt| < 2 ^ 48) :
    (quotient x mean scale).toNat < 2 ^ 31 ↔ |x.toInt - mean.toInt| < 2 ^ 15 * scale.toInt := by
  have hquotient := toNat_quotient hscale hproduct
  have hdiv : |x.toInt - mean.toInt| * 65536 / scale.toInt < 2 ^ 31 ↔
      |x.toInt - mean.toInt| * 65536 < 2 ^ 31 * scale.toInt := Int.ediv_lt_iff_lt_mul hscale
  omega

/-- If the product and the narrowing keep their values, so does the negation, and the result is the
truncated quotient. -/
theorem lossless_of_kept (hscale : 0 < scale.toInt)
    (hproduct : (distance x mean * 65536).toNat = (distance x mean).toNat * 65536)
    (hnarrowing : ((quotient x mean scale).setWidth 32).toInt = (quotient x mean scale).toNat) :
    Lossless x mean scale := by
  have hdistance := (toNat_product_eq_iff x mean).mp hproduct
  have hlt := (toInt_narrowed_eq_iff _).mp hnarrowing
  have hnegation : (-(quotient x mean scale).setWidth 32).toInt =
      -((quotient x mean scale).setWidth 32).toInt := by
    rw [BitVec.toInt_neg]
    apply Int.bmod_eq_of_le <;> omega
  refine ⟨hproduct, hnarrowing, fun _ ↦ hnegation, ?_⟩
  rw [scaleFeature_eq]
  by_cases hslt : x.slt mean = true
  · have hint : x.toInt < mean.toInt := BitVec.slt_iff_toInt_lt.mp hslt
    have habs : |x.toInt - mean.toInt| = -(x.toInt - mean.toInt) := abs_of_neg (by omega)
    rw [if_pos hslt, hnegation, hnarrowing, toNat_quotient hscale hdistance, habs,
      ← Int.tdiv_eq_ediv_of_nonneg (by omega), neg_mul, Int.neg_tdiv, neg_neg]
  · have hint : mean.toInt ≤ x.toInt :=
      not_lt.mp fun h ↦ hslt (BitVec.slt_iff_toInt_lt.mpr h)
    have habs : |x.toInt - mean.toInt| = x.toInt - mean.toInt := abs_of_nonneg (by omega)
    rw [if_neg hslt, hnarrowing, toNat_quotient hscale hdistance, habs,
      Int.tdiv_eq_ediv_of_nonneg (by omega)]

/-- The condition under which the scaler is exact. -/
theorem lossless_iff (hscale : 0 < scale.toInt) :
    Lossless x mean scale ↔
      |x.toInt - mean.toInt| < 2 ^ 48 ∧ |x.toInt - mean.toInt| < 2 ^ 15 * scale.toInt := by
  constructor
  · intro h
    have hdistance := (toNat_product_eq_iff x mean).mp h.product
    have hlt := (toInt_narrowed_eq_iff _).mp h.narrowing
    exact ⟨hdistance, (toNat_quotient_lt_iff hscale hdistance).mp hlt⟩
  · rintro ⟨hdistance, hrange⟩
    have hlt := (toNat_quotient_lt_iff hscale hdistance).mpr hrange
    exact lossless_of_kept hscale ((toNat_product_eq_iff x mean).mpr hdistance)
      ((toInt_narrowed_eq_iff _).mpr hlt)

/-- Where it is exact the scaler is monotone. -/
theorem scaleFeature_mono {y : S64} (hscale : 0 < scale.toInt) (hx : Lossless x mean scale)
    (hy : Lossless y mean scale) (hle : x.toInt ≤ y.toInt) :
    (scaleFeature x mean scale).toInt ≤ (scaleFeature y mean scale).toInt := by
  rw [hx.exact, hy.exact]
  apply Int.tdiv_le_tdiv hscale
  omega

end

end NNeBPF.Mlp

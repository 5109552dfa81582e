import Mathlib.Algebra.BigOperators.Ring.Finset
import Mathlib.Algebra.Order.BigOperators.Group.Finset
import Mathlib.Algebra.Order.Ring.Abs
import Mathlib.Algebra.Order.Ring.Int
import Mathlib.Data.BitVec

/-!
# Words and the integers they stand for

A signed word of `width` bits stands for the integer `toInt`.  Sums and products of words stand for
the sums and products of the integers up to a multiple of `2 ^ width`, so they are exact as soon as
the exact result fits; what happens on the way does not matter.
-/

namespace FixedWidth

variable {width : ℕ}

/-- The integer is the value of a signed word. -/
def Fits (width : ℕ) (value : ℤ) : Prop :=
  -2 ^ (width - 1) ≤ value ∧ value < 2 ^ (width - 1)

instance (width : ℕ) (value : ℤ) : Decidable (Fits width value) :=
  inferInstanceAs (Decidable (_ ∧ _))

theorem fits_toInt (x : BitVec width) : Fits width x.toInt :=
  ⟨x.le_toInt, x.toInt_lt⟩

theorem fits_of_abs_lt {value : ℤ} (h : |value| < 2 ^ (width - 1)) : Fits width value := by
  obtain ⟨hlower, hupper⟩ := abs_lt.mp h
  exact ⟨hlower.le, hupper⟩

theorem abs_toInt_le (x : BitVec width) : |x.toInt| ≤ 2 ^ (width - 1) :=
  abs_le.mpr ⟨x.le_toInt, x.toInt_lt.le⟩

/-- The balanced remainder leaves exactly the values of signed words alone. -/
theorem bmod_eq_self_iff (hwidth : 0 < width) {value : ℤ} :
    value.bmod (2 ^ width) = value ↔ Fits width value := by
  have hpow : (2 : ℤ) ^ width = 2 * 2 ^ (width - 1) := by
    rw [← pow_succ', Nat.sub_add_cancel hwidth]
  constructor
  · intro h
    have hword : (BitVec.ofInt width value).toInt = value := by
      rw [BitVec.toInt_ofInt, h]
    rw [← hword]
    exact fits_toInt (BitVec.ofInt width value)
  · rintro ⟨hlower, hupper⟩
    apply Int.bmod_eq_of_le_mul_two
    · push_cast
      omega
    · push_cast
      omega

theorem toInt_ofInt_of_fits (hwidth : 0 < width) {value : ℤ} (h : Fits width value) :
    (BitVec.ofInt width value).toInt = value := by
  rw [BitVec.toInt_ofInt]
  exact (bmod_eq_self_iff hwidth).mpr h

/-- A product of words is exact if the product of the integers fits. -/
theorem toInt_mul_of_fits (hwidth : 0 < width) {x y : BitVec width}
    (h : Fits width (x.toInt * y.toInt)) : (x * y).toInt = x.toInt * y.toInt := by
  rw [BitVec.toInt_mul]
  exact (bmod_eq_self_iff hwidth).mpr h

/-- A sum of words is the sum of the integers up to a multiple of `2 ^ width`. -/
theorem toInt_sum {Index : Type*} (indices : Finset Index) (term : Index → BitVec width) :
    (∑ j ∈ indices, term j).toInt = (∑ j ∈ indices, (term j).toInt).bmod (2 ^ width) := by
  classical
  induction indices using Finset.induction_on with
  | empty => simp
  | insert j indices hj ih =>
    rw [Finset.sum_insert hj, Finset.sum_insert hj, BitVec.toInt_add, ih, Int.add_bmod_bmod]

theorem toInt_sum_of_fits (hwidth : 0 < width) {Index : Type*} {indices : Finset Index}
    {term : Index → BitVec width} (h : Fits width (∑ j ∈ indices, (term j).toInt)) :
    (∑ j ∈ indices, term j).toInt = ∑ j ∈ indices, (term j).toInt := by
  rw [toInt_sum]
  exact (bmod_eq_self_iff hwidth).mpr h

/-- An arithmetic shift to the right is a division rounded down. -/
theorem toInt_sshiftRight_eq_div (x : BitVec width) (shift : ℕ) :
    (x.sshiftRight shift).toInt = x.toInt / 2 ^ shift := by
  rw [BitVec.toInt_sshiftRight, Int.shiftRight_eq_div_pow]
  push_cast
  rfl

/-- Every part of a sum of products is small if the coefficients and the factors are. -/
theorem abs_sum_mul_le {Index : Type*} (indices : Finset Index) {coefficient factor : Index → ℤ}
    {c b : ℤ} (hcoefficient : ∀ j ∈ indices, |coefficient j| ≤ c)
    (hfactor : ∀ j ∈ indices, |factor j| ≤ b) :
    |∑ j ∈ indices, coefficient j * factor j| ≤ indices.card * (c * b) := by
  have hterm : ∀ j ∈ indices, |coefficient j * factor j| ≤ c * b := by
    intro j hj
    rw [abs_mul]
    exact mul_le_mul (hcoefficient j hj) (hfactor j hj) (abs_nonneg _)
      ((abs_nonneg _).trans (hcoefficient j hj))
  calc
    |∑ j ∈ indices, coefficient j * factor j| ≤ ∑ j ∈ indices, |coefficient j * factor j| :=
      Finset.abs_sum_le_sum_abs _ _
    _ ≤ indices.card • (c * b) := Finset.sum_le_card_nsmul _ _ _ hterm
    _ = indices.card * (c * b) := nsmul_eq_mul _ _

end FixedWidth

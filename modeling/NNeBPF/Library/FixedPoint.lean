import Mathlib

/-!
# Fixed-point numbers and their errors

A number in an ordered field is kept as an integer: it is rounded to a nearest integer, or a
quotient of integers is rounded toward zero or down.  The first moves it by at most one half, the
others by less than one.  From this follow the error of a quotient whose divisor and offset were
rounded, and the error of a sum of products whose coefficients were rounded and whose factors carry
errors.
-/

namespace FixedPoint

variable {K : Type*} [Field K] [LinearOrder K] [IsStrictOrderedRing K]

/-! ## Rounding -/

section

variable [FloorRing K]

/-- The nearest integer, and the even one of two. -/
def roundHalfEven (x : K) : ℤ :=
  if x - ⌊x⌋ < 1 / 2 then ⌊x⌋
  else if 1 / 2 < x - ⌊x⌋ then ⌊x⌋ + 1
  else if Even ⌊x⌋ then ⌊x⌋ else ⌊x⌋ + 1

theorem abs_roundHalfEven_sub_le (x : K) : |(roundHalfEven x : K) - x| ≤ 1 / 2 := by
  have hlower := Int.floor_le x
  have hupper := Int.lt_floor_add_one x
  unfold roundHalfEven
  split_ifs with hbelow habove heven
  · rw [abs_le]
    constructor <;> linarith
  · push_cast
    rw [abs_le]
    constructor <;> linarith
  · rw [abs_le]
    constructor <;> linarith
  · push_cast
    rw [abs_le]
    constructor <;> linarith

@[simp]
theorem roundHalfEven_intCast (n : ℤ) : roundHalfEven (n : K) = n := by
  unfold roundHalfEven
  rw [Int.floor_intCast, sub_self]
  exact if_pos (by positivity)

end

/-- A quotient rounded down. -/
theorem abs_ediv_sub_lt (a : ℤ) {b : ℤ} (hb : 0 < b) : |((a / b : ℤ) : K) - a / b| < 1 := by
  have hpos : (0 : K) < b := by exact_mod_cast hb
  have hnonneg : (0 : K) ≤ (a % b : ℤ) := by exact_mod_cast Int.emod_nonneg a hb.ne'
  have hlt : ((a % b : ℤ) : K) < b := by exact_mod_cast Int.emod_lt_of_pos a hb
  have hsplit : (a : K) = b * (a / b : ℤ) + (a % b : ℤ) := by
    exact_mod_cast (Int.mul_ediv_add_emod a b).symm
  have hdifference : ((a / b : ℤ) : K) - a / b = -((a % b : ℤ) / b) := by
    field_simp
    linear_combination -hsplit
  rw [hdifference, abs_neg, abs_of_nonneg (by positivity), div_lt_one hpos]
  exact hlt

/-- A quotient rounded toward zero. -/
theorem abs_tdiv_sub_lt (a : ℤ) {b : ℤ} (hb : 0 < b) : |((a.tdiv b : ℤ) : K) - a / b| < 1 := by
  rcases le_total 0 a with hnonneg | hneg
  · rw [Int.tdiv_eq_ediv_of_nonneg hnonneg]
    exact abs_ediv_sub_lt a hb
  · have hflip : a.tdiv b = -(-a / b) := by
      rw [← Int.tdiv_eq_ediv_of_nonneg (by omega), Int.neg_tdiv, neg_neg]
    have hbound := abs_ediv_sub_lt (K := K) (-a) hb
    rw [← abs_neg] at hbound
    rw [hflip]
    push_cast at hbound ⊢
    calc
      |-((-a / b : ℤ) : K) - a / b| = |-(((-a / b : ℤ) : K) - -a / b)| := by
        congr 1
        ring
      _ < 1 := hbound

/-! ## Errors that are passed on -/

/-- A quotient with a rounded offset and a rounded divisor. -/
theorem abs_quotient_sub_le {x offset divisor roundedOffset roundedDivisor : K}
    (hdivisor : 0 < divisor) (hrounded : 0 < roundedDivisor)
    (hoffset : |roundedOffset - offset| ≤ 1 / 2) (hscale : |roundedDivisor - divisor| ≤ 1 / 2) :
    |(x - roundedOffset) / roundedDivisor - (x - offset) / divisor| ≤
      (1 + |(x - offset) / divisor|) / (2 * roundedDivisor) := by
  have hdifference : (x - roundedOffset) / roundedDivisor - (x - offset) / divisor =
      -((roundedOffset - offset) + (x - offset) / divisor * (roundedDivisor - divisor)) /
        roundedDivisor := by
    field_simp
    ring
  have hnumerator :
      |(roundedOffset - offset) + (x - offset) / divisor * (roundedDivisor - divisor)| ≤
        (1 + |(x - offset) / divisor|) / 2 :=
    calc
      |(roundedOffset - offset) + (x - offset) / divisor * (roundedDivisor - divisor)| ≤
          |roundedOffset - offset| + |(x - offset) / divisor| * |roundedDivisor - divisor| := by
        rw [← abs_mul]
        exact abs_add_le _ _
      _ ≤ 1 / 2 + |(x - offset) / divisor| * (1 / 2) :=
        add_le_add hoffset (mul_le_mul_of_nonneg_left hscale (abs_nonneg _))
      _ = (1 + |(x - offset) / divisor|) / 2 := by ring
  rw [hdifference, abs_div, abs_neg, abs_of_pos hrounded]
  calc
    |(roundedOffset - offset) + (x - offset) / divisor * (roundedDivisor - divisor)| /
        roundedDivisor ≤ (1 + |(x - offset) / divisor|) / 2 / roundedDivisor :=
      div_le_div_of_nonneg_right hnumerator hrounded.le
    _ = (1 + |(x - offset) / divisor|) / (2 * roundedDivisor) := div_div _ _ _

/-- The product of a rounded coefficient with a factor that carries an error. -/
theorem abs_product_sub_le {unit : K} (hunit : 0 < unit) {coefficient factor : ℤ}
    {exactCoefficient exactFactor e : K}
    (hcoefficient : |(coefficient : K) - exactCoefficient * unit| ≤ 1 / 2)
    (hfactor : |(factor : K) - exactFactor| ≤ e) :
    |(coefficient : K) * factor / unit - exactCoefficient * exactFactor| ≤
      |(coefficient : K)| / unit * e + |exactFactor| / (2 * unit) := by
  have hsplit : (coefficient : K) * factor / unit - exactCoefficient * exactFactor =
      (coefficient : K) / unit * (factor - exactFactor) +
        (coefficient - exactCoefficient * unit) * (exactFactor / unit) := by
    field_simp
    ring
  have hadd := abs_add_le ((coefficient : K) / unit * (factor - exactFactor))
    ((coefficient - exactCoefficient * unit) * (exactFactor / unit))
  rw [abs_mul, abs_mul, abs_div, abs_div, abs_of_pos hunit] at hadd
  rw [hsplit]
  calc
    |(coefficient : K) / unit * (factor - exactFactor) +
        (coefficient - exactCoefficient * unit) * (exactFactor / unit)| ≤
      |(coefficient : K)| / unit * |factor - exactFactor| +
        |coefficient - exactCoefficient * unit| * (|exactFactor| / unit) := hadd
    _ ≤ |(coefficient : K)| / unit * e + 1 / 2 * (|exactFactor| / unit) := by
      apply add_le_add
      · exact mul_le_mul_of_nonneg_left hfactor (by positivity)
      · exact mul_le_mul_of_nonneg_right hcoefficient (by positivity)
    _ = |(coefficient : K)| / unit * e + |exactFactor| / (2 * unit) := by
      field_simp

section

variable {Index : Type*} [Fintype Index]

/-- The products of rounded coefficients with factors that carry errors. -/
theorem abs_dot_sub_le {unit : K} (hunit : 0 < unit) {coefficient factor : Index → ℤ}
    {exactCoefficient exactFactor : Index → K} {e : K}
    (hcoefficient : ∀ j, |(coefficient j : K) - exactCoefficient j * unit| ≤ 1 / 2)
    (hfactor : ∀ j, |(factor j : K) - exactFactor j| ≤ e) :
    |(∑ j, (coefficient j : K) * factor j) / unit - ∑ j, exactCoefficient j * exactFactor j| ≤
      (∑ j, |(coefficient j : K)|) / unit * e + (∑ j, |exactFactor j|) / (2 * unit) := by
  have hsums : (∑ j, (coefficient j : K) * factor j) / unit -
      ∑ j, exactCoefficient j * exactFactor j =
        ∑ j, ((coefficient j : K) * factor j / unit - exactCoefficient j * exactFactor j) := by
    rw [Finset.sum_sub_distrib, Finset.sum_div]
  rw [hsums]
  calc
    |∑ j, ((coefficient j : K) * factor j / unit - exactCoefficient j * exactFactor j)| ≤
        ∑ j, |(coefficient j : K) * factor j / unit - exactCoefficient j * exactFactor j| :=
      Finset.abs_sum_le_sum_abs _ _
    _ ≤ ∑ j, (|(coefficient j : K)| / unit * e + |exactFactor j| / (2 * unit)) :=
      Finset.sum_le_sum fun j _ ↦ abs_product_sub_le hunit (hcoefficient j) (hfactor j)
    _ = (∑ j, |(coefficient j : K)|) / unit * e + (∑ j, |exactFactor j|) / (2 * unit) := by
      rw [Finset.sum_add_distrib, Finset.sum_div, Finset.sum_mul, Finset.sum_div]

/-- The same sum of products divided by the unit and rounded down. -/
theorem abs_floorDot_sub_lt {unit : ℤ} (hunit : 0 < unit) {coefficient factor : Index → ℤ}
    {exactCoefficient exactFactor : Index → K} {e : K}
    (hcoefficient : ∀ j, |(coefficient j : K) - exactCoefficient j * unit| ≤ 1 / 2)
    (hfactor : ∀ j, |(factor j : K) - exactFactor j| ≤ e) :
    |(((∑ j, coefficient j * factor j) / unit : ℤ) : K) -
        ∑ j, exactCoefficient j * exactFactor j| <
      1 + (∑ j, |(coefficient j : K)|) / unit * e + (∑ j, |exactFactor j|) / (2 * unit) := by
  have hpos : (0 : K) < unit := by exact_mod_cast hunit
  have hfloor := abs_ediv_sub_lt (K := K) (∑ j, coefficient j * factor j) hunit
  have hdot := abs_dot_sub_le hpos hcoefficient hfactor
  push_cast at hfloor
  calc
    |(((∑ j, coefficient j * factor j) / unit : ℤ) : K) -
        ∑ j, exactCoefficient j * exactFactor j| ≤
      |(((∑ j, coefficient j * factor j) / unit : ℤ) : K) -
          (∑ j, (coefficient j : K) * factor j) / unit| +
        |(∑ j, (coefficient j : K) * factor j) / unit -
          ∑ j, exactCoefficient j * exactFactor j| := abs_sub_le _ _ _
    _ < 1 + ((∑ j, |(coefficient j : K)|) / unit * e +
        (∑ j, |exactFactor j|) / (2 * unit)) := add_lt_add_of_lt_of_le hfloor hdot
    _ = 1 + (∑ j, |(coefficient j : K)|) / unit * e +
        (∑ j, |exactFactor j|) / (2 * unit) := by ring

end

end FixedPoint

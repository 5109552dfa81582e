import NNeBPF.Library.FixedWidth
import NNeBPF.Mlp.Params

/-!
# The accumulator of a linear layer

The inner loop of `linear_layer` adds products of sign-extended words in 64 bits.  With weights of
at most 16 bits in magnitude, as the shipped ones are, no product and no partial sum leaves the
signed range, whatever the input buffer holds, so the loop computes the dot product of integers.
-/

namespace NNeBPF.Mlp

open CountedLoop FixedWidth

variable {M N size : ℕ}

/-- The sum after `n` passes of the inner loop. -/
def partialSum (W : Vector S32 (M * N)) (x : Vector S32 size) (hN : N ≤ size) (i : Fin M) (n : ℕ)
    (hn : n ≤ N) : S64 :=
  accumulate n fun j ↦
    (W[rowMajor i (Fin.castLE hn j)]).signExtend 64 *
      (x[Fin.castLE hN (Fin.castLE hn j)]).signExtend 64

/-- The same sum over the integers. -/
def exactPartialSum (W : Vector S32 (M * N)) (x : Vector S32 size) (hN : N ≤ size) (i : Fin M)
    (n : ℕ) (hn : n ≤ N) : ℤ :=
  ∑ j : Fin n, (W[rowMajor i (Fin.castLE hn j)]).toInt *
    (x[Fin.castLE hN (Fin.castLE hn j)]).toInt

/-- In every row every product and every partial sum fits into the accumulator, and the loop
computes it. -/
def NoOverflow (W : Vector S32 (M * N)) (x : Vector S32 size) (hN : N ≤ size) : Prop :=
  ∀ i : Fin M,
    (∀ j : Fin N, Fits 64 ((matrixOf W i j).toInt * (cells x N hN j).toInt)) ∧
    ∀ n (hn : n ≤ N), Fits 64 (exactPartialSum W x hN i n hn) ∧
      (partialSum W x hN i n hn).toInt = exactPartialSum W x hN i n hn

theorem partialSum_eq_rowSum (W : Vector S32 (M * N)) (x : Vector S32 size) (hN : N ≤ size)
    (i : Fin M) : partialSum W x hN i N le_rfl = rowSum W x hN i := rfl

theorem toInt_signExtend_mul (a b : S32) :
    (a.signExtend 64 * b.signExtend 64).toInt = a.toInt * b.toInt := by
  have hextend (c : S32) : (c.signExtend 64).toInt = c.toInt :=
    BitVec.toInt_signExtend_of_le (by decide)
  have hfits : Fits 64 ((a.signExtend 64).toInt * (b.signExtend 64).toInt) := by
    apply fits_of_abs_lt
    rw [hextend, hextend, abs_mul]
    calc
      |a.toInt| * |b.toInt| ≤ 2 ^ 31 * 2 ^ 31 :=
        mul_le_mul (abs_toInt_le a) (abs_toInt_le b) (abs_nonneg _) (by norm_num)
      _ < 2 ^ (64 - 1) := by norm_num
  rw [toInt_mul_of_fits (by decide) hfits, hextend, hextend]

/-- Small weights leave room for a sum of products, whatever they are multiplied with. -/
theorem fits_dot {n : ℕ} {weights : Fin n → S32} {bound : ℤ} (hbound : n * bound < 2 ^ 32)
    (hweights : ∀ j, |(weights j).toInt| ≤ bound) (x : Fin n → S32) :
    Fits 64 (∑ j, (weights j).toInt * (x j).toInt) := by
  apply fits_of_abs_lt
  calc
    |∑ j, (weights j).toInt * (x j).toInt| ≤
        (Finset.univ : Finset (Fin n)).card * (bound * 2 ^ 31) :=
      abs_sum_mul_le _ (fun j _ ↦ hweights j) fun j _ ↦ abs_toInt_le (x j)
    _ = n * bound * 2 ^ 31 := by
      rw [Finset.card_univ, Fintype.card_fin]
      ring
    _ < 2 ^ (64 - 1) := by omega

/-- A partial sum that fits is computed. -/
theorem toInt_partialSum {W : Vector S32 (M * N)} {x : Vector S32 size} {hN : N ≤ size}
    {i : Fin M} {n : ℕ} {hn : n ≤ N} (h : Fits 64 (exactPartialSum W x hN i n hn)) :
    (partialSum W x hN i n hn).toInt = exactPartialSum W x hN i n hn := by
  unfold partialSum exactPartialSum at *
  rw [accumulate_eq_sum]
  simp only [← toInt_signExtend_mul] at h ⊢
  exact toInt_sum_of_fits (by decide) h

/-- Small weights never overflow the accumulator. -/
theorem noOverflow_of_abs_le {W : Vector S32 (M * N)} {bound : ℤ}
    (hW : ∀ (i : Fin M) (j : Fin N), |(matrixOf W i j).toInt| ≤ bound) (hN : N ≤ size)
    (hbound : N * bound < 2 ^ 32) (hnonneg : 0 ≤ bound) (x : Vector S32 size) :
    NoOverflow W x hN := by
  intro i
  have hx (j : Fin N) : |(cells x N hN j).toInt| ≤ 2 ^ 31 := abs_toInt_le _
  constructor
  · intro j
    have hone : (1 : ℤ) ≤ N := by
      have hpos : 0 < N := Nat.lt_of_le_of_lt (Nat.zero_le _) j.isLt
      exact_mod_cast hpos
    apply fits_of_abs_lt
    rw [abs_mul]
    calc
      |(matrixOf W i j).toInt| * |(cells x N hN j).toInt| ≤ bound * 2 ^ 31 :=
        mul_le_mul (hW i j) (hx j) (abs_nonneg _) hnonneg
      _ ≤ N * bound * 2 ^ 31 := by nlinarith
      _ < 2 ^ (64 - 1) := by omega
  · intro n hn
    have hnN : (n : ℤ) ≤ N := by exact_mod_cast hn
    have hroom : n * bound < 2 ^ 32 :=
      lt_of_le_of_lt (mul_le_mul_of_nonneg_right hnN hnonneg) hbound
    have hfits : Fits 64 (exactPartialSum W x hN i n hn) :=
      fits_dot hroom (fun j ↦ hW i (Fin.castLE hn j)) _
    exact ⟨hfits, toInt_partialSum hfits⟩

/-! ## The shipped weights -/

/-- Every weight of the flat array is its integer in the header file. -/
theorem toInt_wordsOf {n : ℕ} {ints : List ℤ} (h : ints.length = n) {bound : ℤ}
    (hbound : bound < 2 ^ 31) (hints : ∀ weight ∈ ints, |weight| ≤ bound) (k : ℕ) (hk : k < n) :
    ((wordsOf 32 ints h)[k]).toInt = ints.get (Fin.cast h.symm ⟨k, hk⟩) ∧
      |((wordsOf 32 ints h)[k]).toInt| ≤ bound := by
  have hsmall : |ints.get (Fin.cast h.symm ⟨k, hk⟩)| ≤ bound := hints _ (List.get_mem _ _)
  have hvalue : ((wordsOf 32 ints h)[k]).toInt = ints.get (Fin.cast h.symm ⟨k, hk⟩) := by
    rw [getElem_wordsOf 32 h hk (List.getElem?_eq_getElem (h.symm ▸ hk))]
    exact toInt_ofInt_of_fits (by decide) (fits_of_abs_lt (lt_of_le_of_lt hsmall hbound))
  rw [hvalue]
  exact ⟨rfl, hsmall⟩

theorem length_layer0WeightInts : layer0WeightInts.length = 32 * 6 := by decide +kernel

theorem length_layer1WeightInts : layer1WeightInts.length = 32 * 32 := by decide +kernel

theorem length_layer2WeightInts : layer2WeightInts.length = 2 * 32 := by decide +kernel

/-- The magnitude that no shipped weight exceeds. -/
def weightBound : ℤ := 46589

theorem abs_layer0WeightInts_le : ∀ weight ∈ layer0WeightInts, |weight| ≤ weightBound := by
  decide +kernel

theorem abs_layer1WeightInts_le : ∀ weight ∈ layer1WeightInts, |weight| ≤ weightBound := by
  decide +kernel

theorem abs_layer2WeightInts_le : ∀ weight ∈ layer2WeightInts, |weight| ≤ weightBound := by
  decide +kernel

/-- Weights that the 64-bit sums of a layer have room for, whatever the inputs are. -/
structure SmallWeights (net : Net) (bound : ℤ) : Prop where
  room : 32 * bound < 2 ^ 32
  layer0 : ∀ i j, |(matrixOf net.layer0Weight i j).toInt| ≤ bound
  layer1 : ∀ i j, |(matrixOf net.layer1Weight i j).toInt| ≤ bound
  layer2 : ∀ i j, |(matrixOf net.layer2Weight i j).toInt| ≤ bound

theorem smallWeights_shippedNet : SmallWeights shippedNet weightBound := by
  have hsmall : weightBound < 2 ^ 31 := by decide
  refine ⟨by decide, ?_, ?_, ?_⟩
  · intro i j
    exact (toInt_wordsOf length_layer0WeightInts hsmall abs_layer0WeightInts_le _ _).2
  · intro i j
    exact (toInt_wordsOf length_layer1WeightInts hsmall abs_layer1WeightInts_le _ _).2
  · intro i j
    exact (toInt_wordsOf length_layer2WeightInts hsmall abs_layer2WeightInts_le _ _).2

/-- With the shipped weights the accumulator never overflows, whatever the buffers hold. -/
theorem shippedNet_noOverflow (x : Vector S32 32) :
    NoOverflow shippedNet.layer0Weight x features_fit ∧
      NoOverflow shippedNet.layer1Weight x activations_fit ∧
      NoOverflow shippedNet.layer2Weight x activations_fit := by
  have hnonneg : 0 ≤ weightBound := by decide
  have hsmall := smallWeights_shippedNet
  exact ⟨noOverflow_of_abs_le hsmall.layer0 _ (by decide) hnonneg x,
    noOverflow_of_abs_le hsmall.layer1 _ (by decide) hnonneg x,
    noOverflow_of_abs_le hsmall.layer2 _ (by decide) hnonneg x⟩

end NNeBPF.Mlp

import NNeBPF.Library.FixedPoint
import NNeBPF.Mlp.IntegerNetwork

/-!
# From the trained network to the header file

`mlp.py` trains a network without biases, and `mlp_quant.py` writes it down in integers: the weights
in units of `2^-16`, row after row, the means and the scales in units of one, each rounded to a
nearest integer.  The C arrays hold the weights where the index `i * N + j` looks for them, and a
network that is read back is written again as it was.
-/

namespace NNeBPF.Mlp

open FixedPoint FixedWidth

variable {M N : ℕ}

/-- What `mlp_quant.py` loads. -/
structure SavedStats where
  layer0Weight : Matrix (Fin 32) (Fin 6) ℚ
  layer1Weight : Matrix (Fin 32) (Fin 32) ℚ
  layer2Weight : Matrix (Fin 2) (Fin 32) ℚ
  mean : Fin 6 → ℚ
  scale : Fin 6 → ℚ

/-! ## `mlp.py` -/

/-- `nn.Linear` with `bias=False`. -/
def nnLinear (W : Matrix (Fin M) (Fin N) ℚ) (h : Fin N → ℚ) : Fin M → ℚ :=
  fun i ↦ ∑ j, W i j * h j

/-- `nn.ReLU`. -/
def nnReLU (h : Fin N → ℚ) : Fin N → ℚ := fun i ↦ max (h i) 0

section

variable (stats : SavedStats) (h : Fin 6 → ℚ)

def forwardHidden1 : Fin 32 → ℚ := nnReLU (nnLinear stats.layer0Weight h)

def forwardHidden2 : Fin 32 → ℚ := nnReLU (nnLinear stats.layer1Weight (forwardHidden1 stats h))

/-- `forward` of the trained network. -/
def forward : Fin 2 → ℚ := nnLinear stats.layer2Weight (forwardHidden2 stats h)

end

theorem nnLinear_mul (W : Matrix (Fin M) (Fin N) ℚ) (c : ℚ) (h : Fin N → ℚ) :
    nnLinear W (fun j ↦ c * h j) = fun i ↦ c * nnLinear W h i := by
  funext i
  unfold nnLinear
  rw [Finset.mul_sum]
  apply Finset.sum_congr rfl
  intro j _
  ring

theorem nnReLU_mul {c : ℚ} (hc : 0 ≤ c) (h : Fin N → ℚ) :
    nnReLU (fun j ↦ c * h j) = fun j ↦ c * nnReLU h j := by
  funext j
  unfold nnReLU
  rw [mul_max_of_nonneg _ _ hc, mul_zero]

/-- Without biases the network commutes with a change of the unit. -/
theorem forward_mul (stats : SavedStats) {c : ℚ} (hc : 0 ≤ c) (h : Fin 6 → ℚ) :
    forward stats (fun j ↦ c * h j) = fun i ↦ c * forward stats h i := by
  unfold forward forwardHidden2 forwardHidden1
  rw [nnLinear_mul, nnReLU_mul hc, nnLinear_mul, nnReLU_mul hc, nnLinear_mul]

/-! ## `mlp_quant.py` -/

/-- `params.flatten()`: the rows one after another. -/
def flatten (params : Matrix (Fin M) (Fin N) ℚ) : List ℚ :=
  (List.ofFn fun i ↦ List.ofFn fun j ↦ params i j).flatten

/-- The rounded weights of a tensor, in the order in which they are written. -/
def writtenParams (fixPoint : ℕ) (params : Matrix (Fin M) (Fin N) ℚ) : List ℤ :=
  (flatten params).map fun weight ↦ roundHalfEven (weight * 2 ^ fixPoint)

/-- The rounded mean, or the rounded scale. -/
def writtenStats (values : Fin N → ℚ) : List ℤ := List.ofFn fun j ↦ roundHalfEven (values j)

theorem divNat_rowMajor (i : Fin M) (j : Fin N) : (rowMajor i j).divNat = i := by
  apply Fin.ext
  calc
    (i.val * N + j.val) / N = (N * i.val + j.val) / N := by rw [Nat.mul_comm]
    _ = i.val + j.val / N := Nat.mul_add_div (Nat.zero_lt_of_lt j.isLt) _ _
    _ = i.val := by rw [Nat.div_eq_of_lt j.isLt, Nat.add_zero]

theorem modNat_rowMajor (i : Fin M) (j : Fin N) : (rowMajor i j).modNat = j := by
  apply Fin.ext
  calc
    (i.val * N + j.val) % N = (N * i.val + j.val) % N := by rw [Nat.mul_comm]
    _ = j.val % N := Nat.mul_add_mod _ _ _
    _ = j.val := Nat.mod_eq_of_lt j.isLt

theorem flatten_eq_ofFn (params : Matrix (Fin M) (Fin N) ℚ) :
    flatten params = List.ofFn fun k : Fin (M * N) ↦ params k.divNat k.modNat := by
  have hentry (i : Fin M) (j : Fin N) :
      params (rowMajor i j).divNat (rowMajor i j).modNat = params i j := by
    rw [divNat_rowMajor, modNat_rowMajor]
  rw [List.ofFn_mul]
  unfold flatten
  congr 2
  funext i
  congr 1
  funext j
  exact (hentry i j).symm

theorem writtenParams_eq_ofFn (fixPoint : ℕ) (params : Matrix (Fin M) (Fin N) ℚ) :
    writtenParams fixPoint params =
      List.ofFn fun k : Fin (M * N) ↦ roundHalfEven (params k.divNat k.modNat * 2 ^ fixPoint) := by
  rw [writtenParams, flatten_eq_ofFn, List.map_ofFn]
  rfl

theorem length_writtenParams (fixPoint : ℕ) (params : Matrix (Fin M) (Fin N) ℚ) :
    (writtenParams fixPoint params).length = M * N := by
  rw [writtenParams_eq_ofFn, List.length_ofFn]

theorem length_writtenStats (values : Fin N → ℚ) : (writtenStats values).length = N :=
  List.length_ofFn

/-- The rounded parameters of a trained network as words of the types that the header file declares
for them. -/
def exportedNet (stats : SavedStats) : Net where
  layer0Weight := wordsOf 32 (writtenParams 16 stats.layer0Weight) (length_writtenParams 16 _)
  layer1Weight := wordsOf 32 (writtenParams 16 stats.layer1Weight) (length_writtenParams 16 _)
  layer2Weight := wordsOf 32 (writtenParams 16 stats.layer2Weight) (length_writtenParams 16 _)
  mean := wordsOf 64 (writtenStats stats.mean) (length_writtenStats _)
  scale := wordsOf 64 (writtenStats stats.scale) (length_writtenStats _)

/-- Weights in units of `2^-16`, each as the nearest integer. -/
def quantized (W : Matrix (Fin M) (Fin N) ℚ) : Matrix (Fin M) (Fin N) ℤ :=
  Matrix.of fun i j ↦ roundHalfEven (W i j * 2 ^ 16)

/-- The rounded parameters are values of the types that the header file declares for them, which
are also the types that `.int()` and `.astype(np.int64)` convert to. -/
structure Representable (stats : SavedStats) : Prop where
  layer0 : ∀ i j, Fits 32 (quantized stats.layer0Weight i j)
  layer1 : ∀ i j, Fits 32 (quantized stats.layer1Weight i j)
  layer2 : ∀ i j, Fits 32 (quantized stats.layer2Weight i j)
  mean : ∀ j, Fits 64 (roundHalfEven (stats.mean j))
  scale : ∀ j, Fits 64 (roundHalfEven (stats.scale j))

theorem getElem?_writtenParams (fixPoint : ℕ) (params : Matrix (Fin M) (Fin N) ℚ)
    (k : Fin (M * N)) : (writtenParams fixPoint params)[k.val]? =
      some (roundHalfEven (params k.divNat k.modNat * 2 ^ fixPoint)) := by
  rw [writtenParams_eq_ofFn, List.getElem?_ofFn, dif_pos k.isLt]

theorem getElem?_writtenStats (values : Fin N → ℚ) (j : Fin N) :
    (writtenStats values)[j.val]? = some (roundHalfEven (values j)) := by
  rw [writtenStats, List.getElem?_ofFn, dif_pos j.isLt]

/-- The C index `i * N + j` finds the weight that the exporter took from row `i` and column `j`. -/
theorem weightsOf_writtenParams {W : Matrix (Fin M) (Fin N) ℚ}
    (hfits : ∀ i j, Fits 32 (quantized W i j)) :
    weightsOf (wordsOf 32 (writtenParams 16 W) (length_writtenParams 16 W)) = quantized W := by
  funext i j
  have hword := getElem_wordsOf 32 (length_writtenParams 16 W) (rowMajor i j).isLt
    (getElem?_writtenParams 16 W (rowMajor i j))
  rw [divNat_rowMajor, modNat_rowMajor] at hword
  calc
    weightsOf (wordsOf 32 (writtenParams 16 W) (length_writtenParams 16 W)) i j =
        (BitVec.ofInt 32 (quantized W i j)).toInt := congrArg BitVec.toInt hword
    _ = quantized W i j := toInt_ofInt_of_fits (by decide) (hfits i j)

theorem toInt_writtenStats {values : Fin N → ℚ} (hfits : ∀ j, Fits 64 (roundHalfEven (values j)))
    (j : Fin N) :
    ((wordsOf 64 (writtenStats values) (length_writtenStats values)).get j).toInt =
      roundHalfEven (values j) := by
  have hword := getElem_wordsOf 64 (length_writtenStats values) j.isLt
    (getElem?_writtenStats values j)
  calc
    ((wordsOf 64 (writtenStats values) (length_writtenStats values)).get j).toInt =
        (BitVec.ofInt 64 (roundHalfEven (values j))).toInt := congrArg BitVec.toInt hword
    _ = roundHalfEven (values j) := toInt_ofInt_of_fits (by decide) (hfits j)

/-! ## A header file read back -/

/-- The numbers that the integers of a network stand for. -/
def statsOf (net : Net) : SavedStats where
  layer0Weight := fun i j ↦ (weightsOf net.layer0Weight i j : ℚ) / 2 ^ 16
  layer1Weight := fun i j ↦ (weightsOf net.layer1Weight i j : ℚ) / 2 ^ 16
  layer2Weight := fun i j ↦ (weightsOf net.layer2Weight i j : ℚ) / 2 ^ 16
  mean := fun j ↦ (net.mean.get j).toInt
  scale := fun j ↦ (net.scale.get j).toInt

theorem roundHalfEven_units (n : ℤ) : roundHalfEven ((n : ℚ) / 2 ^ 16 * 2 ^ 16) = n := by
  rw [div_mul_cancel₀ _ (by norm_num)]
  exact roundHalfEven_intCast n

theorem rowMajor_divNat_modNat (k : Fin (M * N)) : rowMajor k.divNat k.modNat = k :=
  Fin.ext (Nat.div_add_mod' k.val N)

theorem wordsOf_writtenParams (W : Vector S32 (M * N)) :
    wordsOf 32 (writtenParams 16 fun i j ↦ (weightsOf W i j : ℚ) / 2 ^ 16)
      (length_writtenParams 16 _) = W := by
  apply Vector.ext
  intro k hk
  have hword := getElem_wordsOf 32 (length_writtenParams 16 _) hk
    (getElem?_writtenParams 16 (fun i j ↦ (weightsOf W i j : ℚ) / 2 ^ 16) ⟨k, hk⟩)
  have hentry : weightsOf W (Fin.divNat ⟨k, hk⟩) (Fin.modNat ⟨k, hk⟩) = (W[k]).toInt :=
    congrArg (fun index : Fin (M * N) ↦ (W[index]).toInt) (rowMajor_divNat_modNat ⟨k, hk⟩)
  rw [roundHalfEven_units, hentry, BitVec.ofInt_toInt] at hword
  exact hword

theorem wordsOf_writtenStats (words : Vector S64 N) :
    wordsOf 64 (writtenStats fun j ↦ ((words.get j).toInt : ℚ)) (length_writtenStats _) =
      words := by
  apply Vector.ext
  intro k hk
  have hword := getElem_wordsOf 64 (length_writtenStats _) hk
    (getElem?_writtenStats (fun j ↦ ((words.get j).toInt : ℚ)) ⟨k, hk⟩)
  rw [roundHalfEven_intCast, BitVec.ofInt_toInt] at hword
  exact hword

theorem quantized_weightsOf (W : Vector S32 (M * N)) :
    quantized (fun i j ↦ (weightsOf W i j : ℚ) / 2 ^ 16) = weightsOf W := by
  funext i j
  exact roundHalfEven_units _

theorem representable_statsOf (net : Net) : Representable (statsOf net) := by
  have hweights {M N : ℕ} (W : Vector S32 (M * N)) (i : Fin M) (j : Fin N) :
      Fits 32 (quantized (fun i j ↦ (weightsOf W i j : ℚ) / 2 ^ 16) i j) := by
    rw [quantized_weightsOf]
    exact fits_toInt (matrixOf W i j)
  have hstats (words : Vector S64 6) (j : Fin 6) :
      Fits 64 (roundHalfEven (((words.get j).toInt : ℤ) : ℚ)) := by
    rw [roundHalfEven_intCast]
    exact fits_toInt (words.get j)
  exact ⟨hweights net.layer0Weight, hweights net.layer1Weight, hweights net.layer2Weight,
    hstats net.mean, hstats net.scale⟩

/-- The exporter writes the integers of a network that was read back. -/
theorem exportedNet_statsOf (net : Net) : exportedNet (statsOf net) = net := by
  cases net
  simp only [exportedNet, statsOf, wordsOf_writtenParams, wordsOf_writtenStats]

end NNeBPF.Mlp

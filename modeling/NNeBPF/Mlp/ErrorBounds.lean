import NNeBPF.Mlp.Quantization
import NNeBPF.Mlp.SafeRange
import NNeBPF.Mlp.Scaler

/-!
# Errors of the deployed network

Every stage of the integer network adds an error of its own and multiplies the error that it
receives: the scaler truncates and uses a rounded mean and a rounded scale, a layer rounds down and
uses rounded weights, and relu enlarges nothing.  On inputs with which nothing wraps the buffers are
that close to the trained network in units of `2^-16`, and outputs that are further apart than twice
their error get its label.
-/

namespace NNeBPF.Mlp

open FixedPoint FixedWidth IntervalBound

variable {M N : ℕ}

/-! ## Errors of the stages -/

section

variable (stats : SavedStats) (x : Fin 6 → ℤ)

/-- The features as the trained network gets them. -/
def standardized : Fin 6 → ℚ := fun j ↦ (x j - stats.mean j) / stats.scale j

/-- The same in units of `2^-16`. -/
def scaledInput : Fin 6 → ℚ := fun j ↦ 2 ^ 16 * standardized stats x j

/-- Truncation and the rounded means and scales: the error that the scaler begins with. -/
def scalerError : ℚ :=
  Finset.univ.sup' Finset.univ_nonempty fun j ↦
    1 + 2 ^ 15 * (1 + |standardized stats x j|) / (roundHalfEven (stats.scale j) : ℚ)

/-- The largest row sum of the magnitudes of the written weights, as a number. -/
def rowNorm (W : Matrix (Fin M) (Fin N) ℤ) : ℚ :=
  (Finset.univ.sup fun i ↦ ∑ j, (W i j).natAbs : ℕ) / 2 ^ 16

/-- The error after a layer on exact inputs `h` that arrive with the error `e`. -/
def layerError (W : Matrix (Fin M) (Fin N) ℚ) (e : ℚ) (h : Fin N → ℚ) : ℚ :=
  1 + rowNorm (quantized W) * e + (∑ j, |h j|) / 2 ^ 17

def hidden1Error : ℚ :=
  layerError stats.layer0Weight (scalerError stats x) (scaledInput stats x)

def hidden2Error : ℚ :=
  layerError stats.layer1Weight (hidden1Error stats x)
    (forwardHidden1 stats (scaledInput stats x))

def outputError : ℚ :=
  layerError stats.layer2Weight (hidden2Error stats x)
    (forwardHidden2 stats (scaledInput stats x))

end

/-! ## Inputs on which nothing wraps -/

/-- The 64-bit sums of a layer are the sums of the integers, and the stores into 32 bits keep their
values. -/
structure KeepsRows (W : Matrix (Fin M) (Fin N) S32) (x : Fin N → S32) : Prop where
  sum : ∀ i, Fits 64 (∑ j, (W i j).toInt * (x j).toInt)
  narrowing : ∀ i, (narrow (∑ j, (W i j).signExtend 64 * (x j).signExtend 64)).toInt =
    ((∑ j, (W i j).signExtend 64 * (x j).signExtend 64).sshiftRight 16).toInt

/-- No multiplication or addition of the scaler and of the three layers wraps, and no conversion to
32 bits changes a value. -/
structure NoWrap (net : Net) (x : Vector S64 6) : Prop where
  product : ∀ i, (distance (x.get i) (net.mean.get i) * 65536).toNat =
    (distance (x.get i) (net.mean.get i)).toNat * 65536
  narrowing : ∀ i, ((quotient (x.get i) (net.mean.get i) (net.scale.get i)).setWidth 32).toInt =
    (quotient (x.get i) (net.mean.get i) (net.scale.get i)).toNat
  layer0 : KeepsRows (matrixOf net.layer0Weight) (scaled net x)
  layer1 : KeepsRows (matrixOf net.layer1Weight) (maxZero ∘ preActivation1 net x)
  layer2 : KeepsRows (matrixOf net.layer2Weight) (maxZero ∘ preActivation2 net x)

theorem KeepsRows.values_matVec {W : Matrix (Fin M) (Fin N) S32} {x : Fin N → S32}
    (h : KeepsRows W x) : values (matVec W x) = exactLayer (W.map BitVec.toInt) (values x) := by
  funext i
  calc
    (matVec W x i).toInt =
        ((∑ j, (W i j).signExtend 64 * (x j).signExtend 64).sshiftRight 16).toInt := h.narrowing i
    _ = (∑ j, (W i j).toInt * (x j).toInt) / 2 ^ 16 := by
      rw [toInt_sshiftRight_eq_div, toInt_sum_signExtend (h.sum i)]

/-- Where nothing wraps the layers compute the network over the integers. -/
theorem NoWrap.keepsValues {net : Net} {x : Vector S64 6} (h : NoWrap net x) :
    KeepsValues net x := by
  have h0 : values (preActivation1 net x) = exactPreActivation1 net (values (scaled net x)) :=
    h.layer0.values_matVec
  have h1 := h.layer1.values_matVec
  rw [values_maxZero, h0] at h1
  have h2 := h.layer2.values_matVec
  rw [values_maxZero, show values (preActivation2 net x) =
    exactPreActivation2 net (values (scaled net x)) from h1] at h2
  exact ⟨h0, h1, h2⟩

/-- Small weights leave the narrowing as the only thing that can go wrong in a layer. -/
theorem keepsRows_of_fits {W : Matrix (Fin M) (Fin N) S32} {bound : ℤ} (hbound : N * bound < 2 ^ 32)
    (hW : ∀ i j, |(W i j).toInt| ≤ bound) {x : Fin N → S32}
    (hfits : ∀ i, Fits 32 (exactLayer (W.map BitVec.toInt) (values x) i)) : KeepsRows W x := by
  have hsum (i : Fin M) : Fits 64 (∑ j, (W i j).toInt * (x j).toInt) :=
    fits_dot hbound (hW i) x
  refine ⟨hsum, ?_⟩
  intro i
  have hvalue := congrFun ((values_matVec_eq_iff hbound hW x).mpr hfits) i
  calc
    (narrow (∑ j, (W i j).signExtend 64 * (x j).signExtend 64)).toInt =
        (∑ j, (W i j).toInt * (x j).toInt) / 2 ^ 16 := hvalue
    _ = ((∑ j, (W i j).signExtend 64 * (x j).signExtend 64).sshiftRight 16).toInt := by
      rw [toInt_sshiftRight_eq_div, toInt_sum_signExtend (hsum i)]

/-- With small weights nothing wraps if the scaler is exact and all rows fit into 32 bits. -/
theorem noWrap_of_rowsFit {net : Net} {x : Vector S64 6} {bound : ℤ}
    (hsmall : SmallWeights net bound)
    (hlossless : ∀ i, Lossless (x.get i) (net.mean.get i) (net.scale.get i))
    (hrows : RowsFit net (values (scaled net x))) : NoWrap net x := by
  have hkeeps := (keepsValues_iff hsmall).mpr hrows
  have hfits1 (i : Fin 32) : Fits 32 (exactLayer ((matrixOf net.layer1Weight).map BitVec.toInt)
      (values (maxZero ∘ preActivation1 net x)) i) := by
    rw [values_maxZero, hkeeps.layer0]
    exact hrows.layer1 i
  have hfits2 (i : Fin 2) : Fits 32 (exactLayer ((matrixOf net.layer2Weight).map BitVec.toInt)
      (values (maxZero ∘ preActivation2 net x)) i) := by
    rw [values_maxZero, hkeeps.layer1]
    exact hrows.layer2 i
  exact ⟨fun i ↦ (hlossless i).product, fun i ↦ (hlossless i).narrowing,
    keepsRows_of_fits hsmall.room_six hsmall.layer0 hrows.layer0,
    keepsRows_of_fits hsmall.room hsmall.layer1 hfits1,
    keepsRows_of_fits hsmall.room hsmall.layer2 hfits2⟩

/-! ## The errors of the deployed network -/

theorem rowSum_le_rowNorm (W : Matrix (Fin M) (Fin N) ℤ) (i : Fin M) :
    (∑ j, |(W i j : ℚ)|) / 2 ^ 16 ≤ rowNorm W := by
  have hsup : (∑ j, (W i j).natAbs) ≤ Finset.univ.sup fun i ↦ ∑ j, (W i j).natAbs :=
    Finset.le_sup (f := fun i ↦ ∑ j, (W i j).natAbs) (Finset.mem_univ i)
  have hrow : ∑ j, |(W i j : ℚ)| = ((∑ j, (W i j).natAbs : ℕ) : ℚ) := by
    push_cast
    apply Finset.sum_congr rfl
    intro j _
    rw [Nat.cast_natAbs, Int.cast_abs]
  unfold rowNorm
  rw [hrow]
  apply div_le_div_of_nonneg_right _ (by positivity)
  exact_mod_cast hsup

/-- One layer: rounding down, the error of the inputs, and the rounded weights. -/
theorem abs_exactLayer_sub_lt {W : Matrix (Fin M) (Fin N) ℚ} {v : Fin N → ℤ} {h : Fin N → ℚ}
    {e : ℚ} (herror : 0 ≤ e) (hv : ∀ j, |(v j : ℚ) - h j| ≤ e) (i : Fin M) :
    |(exactLayer (quantized W) v i : ℚ) - nnLinear W h i| < layerError W e h := by
  have hweights (j : Fin N) :
      |(quantized W i j : ℚ) - W i j * ((2 ^ 16 : ℤ) : ℚ)| ≤ 1 / 2 := by
    push_cast
    exact abs_roundHalfEven_sub_le (W i j * 2 ^ 16)
  have hrow := rowSum_le_rowNorm (quantized W) i
  have hlayer := abs_floorDot_sub_lt (by norm_num : (0 : ℤ) < 2 ^ 16) hweights hv
  push_cast at hlayer
  calc
    |(exactLayer (quantized W) v i : ℚ) - nnLinear W h i| <
        1 + (∑ j, |(quantized W i j : ℚ)|) / 2 ^ 16 * e + (∑ j, |h j|) / (2 * 2 ^ 16) := hlayer
    _ ≤ 1 + rowNorm (quantized W) * e + (∑ j, |h j|) / (2 * 2 ^ 16) := by gcongr
    _ = layerError W e h := by
      unfold layerError
      norm_num

/-- Cutting off below zero does not enlarge an error. -/
theorem abs_exactRelu_sub_le (v : Fin N → ℤ) (h : Fin N → ℚ) (i : Fin N) :
    |(exactRelu v i : ℚ) - nnReLU h i| ≤ |(v i : ℚ) - h i| := by
  unfold exactRelu nnReLU
  push_cast
  exact abs_max_sub_max_le_abs _ _ _

/-- A layer and the relu after it. -/
theorem abs_hidden_sub_lt {W : Matrix (Fin M) (Fin N) ℚ} {v : Fin N → ℤ} {h : Fin N → ℚ}
    {e : ℚ} (herror : 0 ≤ e) (hv : ∀ j, |(v j : ℚ) - h j| ≤ e) (i : Fin M) :
    |(exactRelu (exactLayer (quantized W) v) i : ℚ) - nnReLU (nnLinear W h) i| <
      layerError W e h :=
  lt_of_le_of_lt (abs_exactRelu_sub_le _ _ i) (abs_exactLayer_sub_lt herror hv i)

theorem scalerError_pos {stats : SavedStats} (hone : ∀ j, 1 ≤ roundHalfEven (stats.scale j))
    (x : Fin 6 → ℤ) : 0 < scalerError stats x := by
  have hscale : (0 : ℚ) < roundHalfEven (stats.scale 0) := by
    exact_mod_cast lt_of_lt_of_le Int.one_pos (hone 0)
  have hfirst : 1 + 2 ^ 15 * (1 + |standardized stats x 0|) / (roundHalfEven (stats.scale 0) : ℚ) ≤
      scalerError stats x := Finset.le_sup' (f := fun j ↦
        1 + 2 ^ 15 * (1 + |standardized stats x j|) / (roundHalfEven (stats.scale j) : ℚ))
          (Finset.mem_univ 0)
  exact lt_of_lt_of_le (by positivity) hfirst

theorem layerError_pos (W : Matrix (Fin M) (Fin N) ℚ) {e : ℚ} (he : 0 ≤ e) (h : Fin N → ℚ) :
    0 < layerError W e h := by
  have hnorm : 0 ≤ rowNorm (quantized W) := by
    unfold rowNorm
    positivity
  unfold layerError
  positivity

/-- One feature: truncation, and a mean and a scale that are off by at most one half. -/
theorem abs_scaledFeature_sub_lt {mean scale : ℚ} (hpositive : 0 < scale)
    (hone : 1 ≤ roundHalfEven scale) (x : ℤ) :
    |((((x - roundHalfEven mean) * 65536).tdiv (roundHalfEven scale) : ℤ) : ℚ) -
        2 ^ 16 * ((x - mean) / scale)| <
      1 + 2 ^ 15 * (1 + |(x - mean) / scale|) / (roundHalfEven scale : ℚ) := by
  have hpos : 0 < roundHalfEven scale := lt_of_lt_of_le Int.one_pos hone
  have hposQ : (0 : ℚ) < roundHalfEven scale := by exact_mod_cast hpos
  have htruncated := abs_tdiv_sub_lt (K := ℚ) ((x - roundHalfEven mean) * 65536) hpos
  have hquotient := abs_quotient_sub_le (x := (x : ℚ)) hpositive hposQ
    (abs_roundHalfEven_sub_le mean) (abs_roundHalfEven_sub_le scale)
  set written : ℤ := ((x - roundHalfEven mean) * 65536).tdiv (roundHalfEven scale)
  set z : ℚ := (x - mean) / scale
  set q : ℚ := (x - roundHalfEven mean) / roundHalfEven scale with hq
  have hunit : (((x - roundHalfEven mean) * 65536 : ℤ) : ℚ) / (roundHalfEven scale : ℚ) =
      2 ^ 16 * q := by
    rw [hq]
    push_cast
    ring
  rw [hunit] at htruncated
  calc
    |(written : ℚ) - 2 ^ 16 * z| ≤ |(written : ℚ) - 2 ^ 16 * q| + |2 ^ 16 * q - 2 ^ 16 * z| :=
      abs_sub_le _ _ _
    _ = |(written : ℚ) - 2 ^ 16 * q| + 2 ^ 16 * |q - z| := by
      rw [← mul_sub, abs_mul, abs_of_pos (by norm_num : (0 : ℚ) < 2 ^ 16)]
    _ < 1 + 2 ^ 16 * ((1 + |z|) / (2 * (roundHalfEven scale : ℚ))) := by
      apply add_lt_add_of_lt_of_le htruncated
      exact mul_le_mul_of_nonneg_left hquotient (by norm_num)
    _ = 1 + 2 ^ 15 * (1 + |z|) / (roundHalfEven scale : ℚ) := by
      field_simp

section

variable {stats : SavedStats} {x : Vector S64 6}

/-- The features as integers. -/
def featureValues (x : Vector S64 6) : Fin 6 → ℤ := fun j ↦ (x.get j).toInt

theorem abs_scaled_sub_lt (hpositive : ∀ j, 0 < stats.scale j)
    (hone : ∀ j, 1 ≤ roundHalfEven (stats.scale j)) (hfits : Representable stats)
    (hwrap : NoWrap (exportedNet stats) x) (j : Fin 6) :
    |(values (scaled (exportedNet stats) x) j : ℚ) - scaledInput stats (featureValues x) j| <
      scalerError stats (featureValues x) := by
  have hmean : ((exportedNet stats).mean.get j).toInt = roundHalfEven (stats.mean j) :=
    toInt_writtenStats hfits.mean j
  have hscale : ((exportedNet stats).scale.get j).toInt = roundHalfEven (stats.scale j) :=
    toInt_writtenStats hfits.scale j
  have hpos : 0 < ((exportedNet stats).scale.get j).toInt := by
    rw [hscale]
    exact lt_of_lt_of_le Int.one_pos (hone j)
  have hexact : values (scaled (exportedNet stats) x) j =
      ((featureValues x j - roundHalfEven (stats.mean j)) * 65536).tdiv
        (roundHalfEven (stats.scale j)) := by
    rw [← hmean, ← hscale]
    exact (lossless_of_kept hpos (hwrap.product j) (hwrap.narrowing j)).exact
  rw [hexact]
  calc
    |((((featureValues x j - roundHalfEven (stats.mean j)) * 65536).tdiv
        (roundHalfEven (stats.scale j)) : ℤ) : ℚ) - scaledInput stats (featureValues x) j| <
      1 + 2 ^ 15 * (1 + |standardized stats (featureValues x) j|) /
        (roundHalfEven (stats.scale j) : ℚ) :=
      abs_scaledFeature_sub_lt (hpositive j) (hone j) (featureValues x j)
    _ ≤ scalerError stats (featureValues x) :=
      Finset.le_sup' (f := fun j ↦ 1 + 2 ^ 15 * (1 + |standardized stats (featureValues x) j|) /
        (roundHalfEven (stats.scale j) : ℚ)) (Finset.mem_univ j)

/-- The error of every stage, from the scaler to the outputs. -/
structure WithinErrors (stats : SavedStats) (x : Vector S64 6) : Prop where
  scaler : ∀ j, |(values (scaled (exportedNet stats) x) j : ℚ) -
    scaledInput stats (featureValues x) j| < scalerError stats (featureValues x)
  hidden1 : ∀ i, |(values (maxZero ∘ preActivation1 (exportedNet stats) x) i : ℚ) -
    forwardHidden1 stats (scaledInput stats (featureValues x)) i| <
      hidden1Error stats (featureValues x)
  hidden2 : ∀ i, |(values (maxZero ∘ preActivation2 (exportedNet stats) x) i : ℚ) -
    forwardHidden2 stats (scaledInput stats (featureValues x)) i| <
      hidden2Error stats (featureValues x)
  outputs : ∀ i, |(values (referenceNetwork (exportedNet stats) x) i : ℚ) -
    forward stats (scaledInput stats (featureValues x)) i| < outputError stats (featureValues x)

theorem withinErrors (hpositive : ∀ j, 0 < stats.scale j)
    (hone : ∀ j, 1 ≤ roundHalfEven (stats.scale j)) (hfits : Representable stats)
    (hwrap : NoWrap (exportedNet stats) x) : WithinErrors stats x := by
  have hkeeps := hwrap.keepsValues
  have hW0 : weightsOf (exportedNet stats).layer0Weight = quantized stats.layer0Weight :=
    weightsOf_writtenParams hfits.layer0
  have hW1 : weightsOf (exportedNet stats).layer1Weight = quantized stats.layer1Weight :=
    weightsOf_writtenParams hfits.layer1
  have hW2 : weightsOf (exportedNet stats).layer2Weight = quantized stats.layer2Weight :=
    weightsOf_writtenParams hfits.layer2
  have hscaler := abs_scaled_sub_lt hpositive hone hfits hwrap
  have hpos0 := scalerError_pos hone (featureValues x)
  have hpos1 : 0 < hidden1Error stats (featureValues x) := layerError_pos _ hpos0.le _
  have hpos2 : 0 < hidden2Error stats (featureValues x) := layerError_pos _ hpos1.le _
  have hvalue1 : values (maxZero ∘ preActivation1 (exportedNet stats) x) =
      exactRelu (exactLayer (quantized stats.layer0Weight)
        (values (scaled (exportedNet stats) x))) := by
    rw [values_maxZero, hkeeps.layer0, exactPreActivation1, hW0]
  have hhidden1 (i : Fin 32) : |(values (maxZero ∘ preActivation1 (exportedNet stats) x) i : ℚ) -
      forwardHidden1 stats (scaledInput stats (featureValues x)) i| <
        hidden1Error stats (featureValues x) := by
    rw [hvalue1]
    exact abs_hidden_sub_lt hpos0.le (fun j ↦ (hscaler j).le) i
  have hvalue2 : values (maxZero ∘ preActivation2 (exportedNet stats) x) =
      exactRelu (exactLayer (quantized stats.layer1Weight)
        (values (maxZero ∘ preActivation1 (exportedNet stats) x))) := by
    rw [values_maxZero, hkeeps.layer1, exactPreActivation2, hW1, ← hkeeps.layer0, ← values_maxZero]
  have hhidden2 (i : Fin 32) : |(values (maxZero ∘ preActivation2 (exportedNet stats) x) i : ℚ) -
      forwardHidden2 stats (scaledInput stats (featureValues x)) i| <
        hidden2Error stats (featureValues x) := by
    rw [hvalue2]
    exact abs_hidden_sub_lt hpos1.le (fun j ↦ (hhidden1 j).le) i
  have hvalue3 : values (referenceNetwork (exportedNet stats) x) =
      exactLayer (quantized stats.layer2Weight)
        (values (maxZero ∘ preActivation2 (exportedNet stats) x)) := by
    rw [hkeeps.layer2, exactOutputs, hW2, ← hkeeps.layer1, ← values_maxZero]
  have houtput (i : Fin 2) : |(values (referenceNetwork (exportedNet stats) x) i : ℚ) -
      forward stats (scaledInput stats (featureValues x)) i| <
        outputError stats (featureValues x) := by
    rw [hvalue3]
    exact abs_exactLayer_sub_lt hpos2.le (fun j ↦ (hhidden2 j).le) i
  exact ⟨hscaler, hhidden1, hhidden2, houtput⟩

/-- Outputs that are further apart than twice their error get the right label. -/
theorem WithinErrors.label_eq (h : WithinErrors stats x)
    (hmargin : 2 * outputError stats (featureValues x) ≤
      |forward stats (scaledInput stats (featureValues x)) 0 -
        forward stats (scaledInput stats (featureValues x)) 1|) :
    label (referenceNetwork (exportedNet stats) x) =
      exactLabel (forward stats (standardized stats (featureValues x)) 0)
        (forward stats (standardized stats (featureValues x)) 1) := by
  obtain ⟨hlower0, hupper0⟩ := abs_lt.mp (h.outputs 0)
  obtain ⟨hlower1, hupper1⟩ := abs_lt.mp (h.outputs 1)
  have hunit (i : Fin 2) : forward stats (scaledInput stats (featureValues x)) i =
      2 ^ 16 * forward stats (standardized stats (featureValues x)) i :=
    congrFun (forward_mul stats (by norm_num) (standardized stats (featureValues x))) i
  rw [hunit] at hlower0 hupper0 hlower1 hupper1
  rw [hunit, hunit] at hmargin
  have horder : values (referenceNetwork (exportedNet stats) x) 1 <
      values (referenceNetwork (exportedNet stats) x) 0 ↔
        forward stats (standardized stats (featureValues x)) 1 <
          forward stats (standardized stats (featureValues x)) 0 := by
    rw [← Int.cast_lt (R := ℚ)]
    rcases le_abs.mp hmargin with hfirst | hsecond
    · constructor <;> intro _ <;> linarith
    · constructor <;> intro _ <;> linarith
  have hcompare : (referenceNetwork (exportedNet stats) x 1).slt
      (referenceNetwork (exportedNet stats) x 0) = true ↔
        values (referenceNetwork (exportedNet stats) x) 1 <
          values (referenceNetwork (exportedNet stats) x) 0 := BitVec.slt_iff_toInt_lt
  unfold label exactLabel
  simp only [hcompare, horder]

/-! ## The buffers -/

/-- The calls of `standard_scaler`, `linear_layer` and `relu` one after another on two buffers with
any contents: every stage is within its error of the trained network, and outputs with a margin of
twice the last error get its label. -/
theorem buffers_close {stats : SavedStats} (hpositive : ∀ j, 0 < stats.scale j)
    (hone : ∀ j, 1 ≤ roundHalfEven (stats.scale j)) (hfits : Representable stats)
    {x : Vector S64 6} (hwrap : NoWrap (exportedNet stats) x) (old1 old2 : Vector S32 32) :
    let net := exportedNet stats
    let scaler := standardScaler x old2 net.mean net.scale features_fit
    let hidden1 := relu (linearLayer 32 6 net.layer0Weight scaler old1 features_fit
      activations_fit) 32 activations_fit
    let hidden2 := relu (linearLayer 32 32 net.layer1Weight hidden1 scaler activations_fit
      activations_fit) 32 activations_fit
    let outputs := linearLayer 2 32 net.layer2Weight hidden2 hidden1 activations_fit outputs_fit
    let h0 := scaledInput stats (featureValues x)
    (∀ j, |(values (cells scaler 6 features_fit) j : ℚ) - h0 j| <
        scalerError stats (featureValues x)) ∧
      (∀ i, |(values (cells hidden1 32 activations_fit) i : ℚ) - forwardHidden1 stats h0 i| <
        hidden1Error stats (featureValues x)) ∧
      (∀ i, |(values (cells hidden2 32 activations_fit) i : ℚ) - forwardHidden2 stats h0 i| <
        hidden2Error stats (featureValues x)) ∧
      (∀ i, |(values (cells outputs 2 outputs_fit) i : ℚ) - forward stats h0 i| <
        outputError stats (featureValues x)) ∧
      (2 * outputError stats (featureValues x) ≤ |forward stats h0 0 - forward stats h0 1| →
        label (cells outputs 2 outputs_fit) =
          exactLabel (forward stats (standardized stats (featureValues x)) 0)
            (forward stats (standardized stats (featureValues x)) 1)) := by
  intro net scaler hidden1 hidden2 outputs h0
  have hclose := withinErrors hpositive hone hfits hwrap
  have hscaler : cells scaler 6 features_fit = scaled net x :=
    cells_standardScaler x old2 net.mean net.scale features_fit
  have hhidden1 : hidden1 = Vector.ofFn (maxZero ∘ preActivation1 net x) :=
    inputRelu_eq_ofFn net x old1 old2
  have hhidden2 : hidden2 = Vector.ofFn (maxZero ∘ preActivation2 net x) := by
    rw [← hiddenRelu_eq_ofFn net x scaler, ← hhidden1]
  have houtputs : cells outputs 2 outputs_fit = referenceNetwork net x := by
    have hcells := cells_linearLayer net.layer2Weight hidden2 hidden1 activations_fit outputs_fit
    rw [hhidden2, cells_ofFn, ← hhidden2] at hcells
    exact hcells
  rw [hscaler, houtputs, hhidden1, hhidden2, cells_ofFn, cells_ofFn]
  exact ⟨hclose.scaler, hclose.hidden1, hclose.hidden2, hclose.outputs, hclose.label_eq⟩

/-- The features after two packets of 20 payload bytes. -/
def shortFlow : Vector S64 6 :=
  Vector.ofFn fun i ↦ BitVec.ofInt 64 ([20, 0, 20, 80, 40, 2].getD i 0)

theorem noWrap_shortFlow : NoWrap shippedNet shortFlow := by
  have hdistance : ∀ i, |(shortFlow.get i).toInt - (shippedNet.mean.get i).toInt| < 2 ^ 48 ∧
      |(shortFlow.get i).toInt - (shippedNet.mean.get i).toInt| <
        2 ^ 15 * (shippedNet.scale.get i).toInt := by decide
  have hlossless (i : Fin 6) :
      Lossless (shortFlow.get i) (shippedNet.mean.get i) (shippedNet.scale.get i) :=
    (lossless_iff (shippedNet_scale_pos i)).mpr (hdistance i)
  have hscaled : values (scaled shippedNet shortFlow) =
      exactScaled fun i ↦ (shortFlow.get i).toInt := by
    funext i
    exact (hlossless i).exact
  have hbox : InBox (List.ofFn fun i ↦ (shortFlow.get i).toInt)
      (List.ofFn fun i : Fin 6 ↦ flowBox.getD i (0, 0)) := inBox_ofFn (by decide)
  apply noWrap_of_rowsFit smallWeights_shippedNet hlossless
  rw [hscaled]
  exact rowsFit_of_flowBox hbox

/-- The outputs of the shipped parameters, as the export of the numbers that they stand for. -/
theorem buffers_close_shippedNet :
    let stats := statsOf shippedNet
    let net := exportedNet stats
    ∀ old1 old2 : Vector S32 32,
      let scaler := standardScaler shortFlow old2 net.mean net.scale features_fit
      let hidden1 := relu (linearLayer 32 6 net.layer0Weight scaler old1 features_fit
        activations_fit) 32 activations_fit
      let hidden2 := relu (linearLayer 32 32 net.layer1Weight hidden1 scaler activations_fit
        activations_fit) 32 activations_fit
      let outputs := linearLayer 2 32 net.layer2Weight hidden2 hidden1 activations_fit outputs_fit
      ∀ i, |(values (cells outputs 2 outputs_fit) i : ℚ) -
        forward stats (scaledInput stats (featureValues shortFlow)) i| <
          outputError stats (featureValues shortFlow) := by
  intro stats net old1 old2
  have hscale (j : Fin 6) : roundHalfEven (stats.scale j) = (shippedNet.scale.get j).toInt :=
    roundHalfEven_intCast _
  have hone (j : Fin 6) : 1 ≤ roundHalfEven (stats.scale j) := by
    rw [hscale]
    exact shippedNet_scale_pos j
  have hpositive (j : Fin 6) : 0 < stats.scale j := Int.cast_pos.mpr (shippedNet_scale_pos j)
  have hwrap : NoWrap net shortFlow := by
    rw [show net = shippedNet from exportedNet_statsOf shippedNet]
    exact noWrap_shortFlow
  exact (buffers_close hpositive hone (representable_statsOf shippedNet) hwrap old1 old2).2.2.2.1

end

end NNeBPF.Mlp

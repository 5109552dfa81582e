import NNeBPF.Library.IntervalBound
import NNeBPF.Mlp.IntegerNetwork

/-!
# Inputs that the shipped network keeps in range

The exact network with the shipped weights on lists of integers, and the boxes that intervals for
the six scaled features lead to.  If all intervals of these boxes fit into 32 bits, no row is
narrowed to another value.
-/

namespace NNeBPF.Mlp

open FixedWidth IntervalBound

def layer0Rows : List (List ℤ) := rowsOf 6 32 layer0WeightInts

def layer1Rows : List (List ℤ) := rowsOf 32 32 layer1WeightInts

def layer2Rows : List (List ℤ) := rowsOf 32 2 layer2WeightInts

/-- The rows of a flat array of words are the rows of its integers. -/
theorem rowsOf_eq_weightsOf {M N : ℕ} {ints : List ℤ} (h : ints.length = M * N) {bound : ℤ}
    (hbound : bound < 2 ^ 31) (hints : ∀ weight ∈ ints, |weight| ≤ bound) :
    rowsOf N M ints = List.ofFn fun i ↦ List.ofFn fun j ↦ weightsOf (wordsOf 32 ints h) i j := by
  apply rowsOf_eq_ofFn h
  intro i j
  have hlt : i.val * N + j.val < M * N := (rowMajor i j).isLt
  have hweight := (toInt_wordsOf h hbound hints (i.val * N + j.val) hlt).1
  have hentry : weightsOf (wordsOf 32 ints h) i j =
      ((wordsOf 32 ints h)[i.val * N + j.val]).toInt := rfl
  rw [hentry, hweight, List.getElem?_eq_getElem (by omega)]
  rfl

/-! ## The network on lists -/

def preActivation1List (z : List ℤ) : List ℤ := layer 16 layer0Rows z

def preActivation2List (z : List ℤ) : List ℤ :=
  layer 16 layer1Rows (positivePart (preActivation1List z))

def outputsList (z : List ℤ) : List ℤ :=
  layer 16 layer2Rows (positivePart (preActivation2List z))

theorem preActivation1List_ofFn (z : Fin 6 → ℤ) :
    preActivation1List (List.ofFn z) = List.ofFn (exactPreActivation1 shippedNet z) := by
  have hrows : layer0Rows = List.ofFn fun i ↦ List.ofFn fun j ↦
      weightsOf shippedNet.layer0Weight i j :=
    rowsOf_eq_weightsOf length_layer0WeightInts (by decide) abs_layer0WeightInts_le
  rw [preActivation1List, hrows, layer_ofFn]
  rfl

theorem preActivation2List_ofFn (z : Fin 6 → ℤ) :
    preActivation2List (List.ofFn z) = List.ofFn (exactPreActivation2 shippedNet z) := by
  have hrows : layer1Rows = List.ofFn fun i ↦ List.ofFn fun j ↦
      weightsOf shippedNet.layer1Weight i j :=
    rowsOf_eq_weightsOf length_layer1WeightInts (by decide) abs_layer1WeightInts_le
  rw [preActivation2List, hrows, preActivation1List_ofFn, positivePart_ofFn, layer_ofFn]
  rfl

theorem outputsList_ofFn (z : Fin 6 → ℤ) :
    outputsList (List.ofFn z) = List.ofFn (exactOutputs shippedNet z) := by
  have hrows : layer2Rows = List.ofFn fun i ↦ List.ofFn fun j ↦
      weightsOf shippedNet.layer2Weight i j :=
    rowsOf_eq_weightsOf length_layer2WeightInts (by decide) abs_layer2WeightInts_le
  rw [outputsList, hrows, preActivation2List_ofFn, positivePart_ofFn, layer_ofFn]
  rfl

/-! ## Boxes -/

def preActivation1Box (box : List (ℤ × ℤ)) : List (ℤ × ℤ) := layerBox 16 layer0Rows box

def preActivation2Box (box : List (ℤ × ℤ)) : List (ℤ × ℤ) :=
  layerBox 16 layer1Rows (positiveBox (preActivation1Box box))

def outputsBox (box : List (ℤ × ℤ)) : List (ℤ × ℤ) :=
  layerBox 16 layer2Rows (positiveBox (preActivation2Box box))

/-- All intervals of a box lie in the range of a 32-bit word. -/
def BoxFits (box : List (ℤ × ℤ)) : Prop :=
  ∀ bound ∈ box, -2 ^ 31 ≤ bound.1 ∧ bound.2 ≤ 2 ^ 31 - 1

instance (box : List (ℤ × ℤ)) : Decidable (BoxFits box) :=
  inferInstanceAs (Decidable (∀ bound ∈ box, -2 ^ 31 ≤ bound.1 ∧ bound.2 ≤ 2 ^ 31 - 1))

theorem fits_of_boxFits {n : ℕ} {row : Fin n → ℤ} {box : List (ℤ × ℤ)}
    (hrow : InBox (List.ofFn row) box) (hbox : BoxFits box) (i : Fin n) : Fits 32 (row i) := by
  have hmem : row i ∈ List.ofFn row := List.mem_ofFn.mpr ⟨i, rfl⟩
  obtain ⟨hlower, hupper⟩ := mem_of_inBox hrow hbox (row i) hmem
  exact ⟨hlower, by omega⟩

/-- All rows fit for scaled features in a box whose images fit. -/
theorem rowsFit_of_inBox {z : Fin 6 → ℤ} {box : List (ℤ × ℤ)} (hz : InBox (List.ofFn z) box)
    (h1 : BoxFits (preActivation1Box box)) (h2 : BoxFits (preActivation2Box box))
    (h3 : BoxFits (outputsBox box)) : RowsFit shippedNet z := by
  have hlayer0 : InBox (preActivation1List (List.ofFn z)) (preActivation1Box box) :=
    layer_inBox hz 16 layer0Rows
  have hlayer1 : InBox (preActivation2List (List.ofFn z)) (preActivation2Box box) :=
    layer_inBox (positivePart_inBox hlayer0) 16 layer1Rows
  have hlayer2 : InBox (outputsList (List.ofFn z)) (outputsBox box) :=
    layer_inBox (positivePart_inBox hlayer1) 16 layer2Rows
  rw [preActivation1List_ofFn] at hlayer0
  rw [preActivation2List_ofFn] at hlayer1
  rw [outputsList_ofFn] at hlayer2
  exact ⟨fits_of_boxFits hlayer0 h1, fits_of_boxFits hlayer1 h2, fits_of_boxFits hlayer2 h3⟩

/-! ## Features of bounded flows -/

/-- The exact scaler with the shipped parameters. -/
def exactScaled (x : Fin 6 → ℤ) : Fin 6 → ℤ :=
  fun i ↦ ((x i - (shippedNet.mean.get i).toInt) * 65536).tdiv (shippedNet.scale.get i).toInt

/-- The six scalers with the integers of the header file. -/
def scalers : List (ℤ → ℤ) :=
  List.zipWith (fun mean scale x ↦ ((x - mean) * 65536).tdiv scale) meanInts scaleInts

theorem monotone_scalers : ∀ scaler ∈ scalers, Monotone scaler := by
  intro scaler hscaler
  obtain ⟨⟨mean, scale⟩, hpair, rfl⟩ : ∃ pair ∈ meanInts.zip scaleInts,
      (fun x ↦ ((x - pair.1) * 65536).tdiv pair.2) = scaler := by
    rw [scalers, ← List.map_uncurry_zip_eq_zipWith, List.mem_map] at hscaler
    exact hscaler
  have hpositive : ∀ pair ∈ meanInts.zip scaleInts, 0 < pair.2 := by decide
  intro x y hle
  apply Int.tdiv_le_tdiv (hpositive _ hpair)
  omega

theorem ofFn_exactScaled (x : Fin 6 → ℤ) :
    List.ofFn (exactScaled x) =
      List.zipWith (fun scaler value ↦ scaler value) scalers (List.ofFn x) := by
  have hmean : ∀ i : Fin 6, (shippedNet.mean.get i).toInt = meanInts.getD i 0 := by decide
  have hscale : ∀ i : Fin 6, (shippedNet.scale.get i).toInt = scaleInts.getD i 0 := by decide
  have hscaled : exactScaled x = fun i ↦
      ((x i - meanInts.getD i 0) * 65536).tdiv (scaleInts.getD i 0) := by
    funext i
    rw [exactScaled, hmean, hscale]
  rw [hscaled]
  rfl

/-- The ranges of the six features for which the scaler is exact, with at most 8 000 000 packets in
the flow. -/
def flowBox : List (ℤ × ℤ) :=
  [(0, 65535), (-281463815643987, 281486137777323), (0, 65535), (0, 65535), (0, 480000000),
    (0, 8000000)]

/-- Cases by the duration and the header length. -/
def flowCover : Cover :=
  .split 1 (-240000000000000) (.split 4 300000000 .leaf .leaf)
    (.split 1 (-180000000000000) .leaf
      (.split 1 (-60000000000000) .leaf (.split 1 100000000000000 .leaf .leaf)))

/-- The images of a box of features in the three layers fit. -/
def imagesFit (box : List (ℤ × ℤ)) : Bool :=
  decide (BoxFits (preActivation1Box (imageBox scalers box))) &&
    decide (BoxFits (preActivation2Box (imageBox scalers box))) &&
    decide (BoxFits (outputsBox (imageBox scalers box)))

theorem flowCover_holds : flowCover.holds imagesFit flowBox = true := by decide +kernel

/-- Flows of at most 8 000 000 packets keep all rows in range. -/
theorem rowsFit_of_flowBox {x : Fin 6 → ℤ} (hx : InBox (List.ofFn x) flowBox) :
    RowsFit shippedNet (exactScaled x) := by
  have htest : ∀ box, imagesFit box = true → ∀ values, InBox values box →
      ∀ y : Fin 6 → ℤ, values = List.ofFn y → RowsFit shippedNet (exactScaled y) := by
    rintro box hbox _ hvalues y rfl
    simp only [imagesFit, Bool.and_eq_true, decide_eq_true_eq] at hbox
    have hscaled : InBox (List.ofFn (exactScaled y)) (imageBox scalers box) := by
      rw [ofFn_exactScaled]
      exact image_inBox hvalues monotone_scalers
    exact rowsFit_of_inBox hscaled hbox.1.1 hbox.1.2 hbox.2
  exact of_cover htest flowCover flowCover_holds hx x rfl

end NNeBPF.Mlp

import NNeBPF.Mlp.Accumulator
import NNeBPF.Mlp.Network

/-!
# The network over unbounded integers

The same network without words: exact sums, floor division by `2^16`, and `max(., 0)`.  The deployed
network agrees with it at every layer exactly if every row of the exact network fits into 32 bits;
the first row that does not is stored with another value.
-/

namespace NNeBPF.Mlp

open FixedWidth

variable {M N : ℕ}

/-- A linear layer with exact sums, divided by `2^16` and rounded down. -/
def exactLayer (W : Matrix (Fin M) (Fin N) ℤ) (x : Fin N → ℤ) : Fin M → ℤ :=
  fun i ↦ (∑ j, W i j * x j) / 2 ^ 16

def exactRelu (x : Fin N → ℤ) : Fin N → ℤ := fun i ↦ max (x i) 0

/-- The integers that words stand for. -/
def values (x : Fin N → S32) : Fin N → ℤ := fun i ↦ (x i).toInt

/-- The weights of a flat array as integers. -/
def weightsOf (W : Vector S32 (M * N)) : Matrix (Fin M) (Fin N) ℤ :=
  (matrixOf W).map BitVec.toInt

section

variable (net : Net) (z : Fin 6 → ℤ)

def exactPreActivation1 : Fin 32 → ℤ := exactLayer (weightsOf net.layer0Weight) z

def exactPreActivation2 : Fin 32 → ℤ :=
  exactLayer (weightsOf net.layer1Weight) (exactRelu (exactPreActivation1 net z))

/-- The two outputs of the exact network for the scaled features `z`. -/
def exactOutputs : Fin 2 → ℤ :=
  exactLayer (weightsOf net.layer2Weight) (exactRelu (exactPreActivation2 net z))

/-- Every row of the exact network fits into a cell of the buffers. -/
structure RowsFit : Prop where
  layer0 : ∀ i, Fits 32 (exactPreActivation1 net z i)
  layer1 : ∀ i, Fits 32 (exactPreActivation2 net z i)
  layer2 : ∀ i, Fits 32 (exactOutputs net z i)

end

/-- `(o0 > o1) ? 0 : 1` on numbers instead of words. -/
def exactLabel {R : Type*} [LinearOrder R] (o0 o1 : R) : ℕ := if o1 < o0 then 0 else 1

/-- The deployed layers hold the values of the exact network. -/
structure KeepsValues (net : Net) (x : Vector S64 6) : Prop where
  layer0 : values (preActivation1 net x) = exactPreActivation1 net (values (scaled net x))
  layer1 : values (preActivation2 net x) = exactPreActivation2 net (values (scaled net x))
  layer2 : values (referenceNetwork net x) = exactOutputs net (values (scaled net x))

/-! ## One layer -/

theorem values_maxZero (x : Fin N → S32) : values (maxZero ∘ x) = exactRelu (values x) := by
  funext i
  simp only [values, exactRelu, Function.comp_apply, maxZero]
  by_cases hpos : (0 : S32).slt (x i) = true
  · have hint : (0 : S32).toInt < (x i).toInt := BitVec.slt_iff_toInt_lt.mp hpos
    have hzero : (0 : S32).toInt = 0 := rfl
    rw [if_pos hpos, max_eq_left (by omega)]
  · have hint : (x i).toInt ≤ (0 : S32).toInt :=
      not_lt.mp fun h ↦ hpos (BitVec.slt_iff_toInt_lt.mpr h)
    have hzero : (0 : S32).toInt = 0 := rfl
    rw [if_neg hpos, hzero, max_eq_right (by omega)]

/-- A sum that fits into 64 bits is the sum of the integers. -/
theorem toInt_sum_signExtend {W : Matrix (Fin M) (Fin N) S32} {x : Fin N → S32} {i : Fin M}
    (hsum : Fits 64 (∑ j, (W i j).toInt * (x j).toInt)) :
    (∑ j, (W i j).signExtend 64 * (x j).signExtend 64).toInt =
      ∑ j, (W i j).toInt * (x j).toInt := by
  simp only [← toInt_signExtend_mul] at hsum ⊢
  exact toInt_sum_of_fits (by decide) hsum

/-- Its row is the exact row up to a multiple of `2^32`. -/
theorem toInt_matVec {W : Matrix (Fin M) (Fin N) S32} {x : Fin N → S32} {i : Fin M}
    (hsum : Fits 64 (∑ j, (W i j).toInt * (x j).toInt)) :
    (matVec W x i).toInt = (exactLayer (W.map BitVec.toInt) (values x) i).bmod (2 ^ 32) := by
  simp only [matVec, narrow, exactLayer, values, Matrix.map_apply]
  rw [← BitVec.signExtend_eq_setWidth_of_le _ (by decide),
    BitVec.toInt_signExtend_eq_toInt_bmod_of_le _ (by decide), toInt_sshiftRight_eq_div,
    toInt_sum_signExtend hsum]

/-- A layer keeps the exact values exactly if they fit into 32 bits. -/
theorem values_matVec_eq_iff {W : Matrix (Fin M) (Fin N) S32} {bound : ℤ}
    (hbound : N * bound < 2 ^ 32) (hW : ∀ i j, |(W i j).toInt| ≤ bound) (x : Fin N → S32) :
    values (matVec W x) = exactLayer (W.map BitVec.toInt) (values x) ↔
      ∀ i, Fits 32 (exactLayer (W.map BitVec.toInt) (values x) i) := by
  have hrow (i : Fin M) : (matVec W x i).toInt = exactLayer (W.map BitVec.toInt) (values x) i ↔
      Fits 32 (exactLayer (W.map BitVec.toInt) (values x) i) := by
    rw [toInt_matVec (fits_dot hbound (hW i) x)]
    exact bmod_eq_self_iff (by decide)
  constructor
  · intro h i
    exact (hrow i).mp (congrFun h i)
  · intro h
    funext i
    exact (hrow i).mpr (h i)

/-! ## The network -/

section

variable {net : Net} {x : Vector S64 6} {bound : ℤ}

theorem SmallWeights.room_six (hsmall : SmallWeights net bound) :
    ((6 : ℕ) : ℤ) * bound < 2 ^ 32 := by
  have hroom := hsmall.room
  have hzero : 0 ≤ bound := (abs_nonneg _).trans (hsmall.layer0 0 0)
  push_cast
  omega

/-- The deployed network keeps all values exactly if all rows of the exact network fit. -/
theorem keepsValues_iff (hsmall : SmallWeights net bound) :
    KeepsValues net x ↔ RowsFit net (values (scaled net x)) := by
  have h0 := values_matVec_eq_iff hsmall.room_six hsmall.layer0 (scaled net x)
  have h1 := values_matVec_eq_iff hsmall.room hsmall.layer1 (maxZero ∘ preActivation1 net x)
  have h2 := values_matVec_eq_iff hsmall.room hsmall.layer2 (maxZero ∘ preActivation2 net x)
  rw [values_maxZero] at h1 h2
  constructor
  · intro h
    rw [h.layer0] at h1
    rw [h.layer1] at h2
    exact ⟨h0.mp h.layer0, h1.mp h.layer1, h2.mp h.layer2⟩
  · intro h
    have hlayer0 : values (preActivation1 net x) =
        exactPreActivation1 net (values (scaled net x)) := h0.mpr h.layer0
    rw [hlayer0] at h1
    have hlayer1 : values (preActivation2 net x) =
        exactPreActivation2 net (values (scaled net x)) := h1.mpr h.layer1
    rw [hlayer1] at h2
    exact ⟨hlayer0, hlayer1, h2.mpr h.layer2⟩

/-- While the hidden layers fit, the outputs are the exact ones up to multiples of `2^32`. -/
theorem toInt_referenceNetwork (hsmall : SmallWeights net bound)
    (hlayer0 : ∀ i, Fits 32 (exactPreActivation1 net (values (scaled net x)) i))
    (hlayer1 : ∀ i, Fits 32 (exactPreActivation2 net (values (scaled net x)) i)) (i : Fin 2) :
    (referenceNetwork net x i).toInt =
      (exactOutputs net (values (scaled net x)) i).bmod (2 ^ 32) := by
  have h0 := values_matVec_eq_iff hsmall.room_six hsmall.layer0 (scaled net x)
  have h1 := values_matVec_eq_iff hsmall.room hsmall.layer1 (maxZero ∘ preActivation1 net x)
  have hfirst : values (preActivation1 net x) =
      exactPreActivation1 net (values (scaled net x)) := h0.mpr hlayer0
  rw [values_maxZero, hfirst] at h1
  have hsecond : values (preActivation2 net x) =
      exactPreActivation2 net (values (scaled net x)) := h1.mpr hlayer1
  have hrow := toInt_matVec (fits_dot hsmall.room (hsmall.layer2 i)
    (maxZero ∘ preActivation2 net x))
  rw [values_maxZero, hsecond] at hrow
  exact hrow

/-- Where all values are kept the deployed label is the label of the exact outputs. -/
theorem label_of_keepsValues (h : KeepsValues net x) :
    label (referenceNetwork net x) =
      exactLabel (exactOutputs net (values (scaled net x)) 0)
        (exactOutputs net (values (scaled net x)) 1) := by
  have houtput (i : Fin 2) : (referenceNetwork net x i).toInt =
      exactOutputs net (values (scaled net x)) i := congrFun h.layer2 i
  unfold label exactLabel
  rw [← houtput, ← houtput]
  simp only [BitVec.slt_iff_toInt_lt]

end

end NNeBPF.Mlp

import NNeBPF.Mlp.Params

/-!
# The network as one function

What the six stages are meant to compute together: the vector function that applies scaler, linear
layer, relu, linear layer, relu and linear layer one after another, with no buffer in between, and
the label that is printed for its two outputs.
-/

namespace NNeBPF.Mlp

/-- The six inputs after `standard_scaler`. -/
def scaled (net : Net) (x : Vector S64 6) : Fin 6 → S32 :=
  fun i ↦ scaleFeature (x.get i) (net.mean.get i) (net.scale.get i)

/-- Activations after the first linear layer, before its relu. -/
def preActivation1 (net : Net) (x : Vector S64 6) : Fin 32 → S32 :=
  matVec (matrixOf net.layer0Weight) (scaled net x)

/-- Activations after the second linear layer, before its relu. -/
def preActivation2 (net : Net) (x : Vector S64 6) : Fin 32 → S32 :=
  matVec (matrixOf net.layer1Weight) (maxZero ∘ preActivation1 net x)

/-- The two outputs of the network. -/
def referenceNetwork (net : Net) (x : Vector S64 6) : Fin 2 → S32 :=
  matVec (matrixOf net.layer2Weight) (maxZero ∘ preActivation2 net x)

/-- `(o[0] > o[1]) ? 0 : 1`. -/
def label (o : Fin 2 → S32) : ℕ := if (o 1).slt (o 0) then 0 else 1

/-! ## The buffers -/

/-- What the first three stages leave, whatever the two buffers held. -/
theorem inputRelu_eq_ofFn (net : Net) (x : Vector S64 6) (old1 old2 : Vector S32 32) :
    relu (linearLayer 32 6 net.layer0Weight
      (standardScaler x old2 net.mean net.scale features_fit) old1 features_fit
        activations_fit) 32 activations_fit = Vector.ofFn (maxZero ∘ preActivation1 net x) := by
  have hscaled : cells (standardScaler x old2 net.mean net.scale features_fit) 6 features_fit =
      scaled net x := cells_standardScaler x old2 net.mean net.scale features_fit
  rw [linearLayer_eq_ofFn, relu_eq_ofFn, cells_ofFn, hscaled]
  rfl

/-- What the next two stages leave. -/
theorem hiddenRelu_eq_ofFn (net : Net) (x : Vector S64 6) (old : Vector S32 32) :
    relu (linearLayer 32 32 net.layer1Weight (Vector.ofFn (maxZero ∘ preActivation1 net x)) old
      activations_fit activations_fit) 32 activations_fit =
        Vector.ofFn (maxZero ∘ preActivation2 net x) := by
  rw [linearLayer_eq_ofFn, relu_eq_ofFn, cells_ofFn, cells_ofFn]
  rfl

end NNeBPF.Mlp

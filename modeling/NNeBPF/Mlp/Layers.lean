import Mathlib
import NNeBPF.Library.CountedLoop

/-!
# Layers of the integer network

The three tensor routines of `mlp.bpf.h` as the code computes them, loop by loop over flat arrays,
and beside each the vector function that it computes: `linearLayer` is a row-major matrix product
with wrapping 64-bit sums, `relu` and `standardScaler` act on each cell alone.  Division of 64-bit
words by zero gives zero, as the BPF instruction does.
-/

namespace NNeBPF

abbrev S32 := BitVec 32
abbrev S64 := BitVec 64
abbrev U64 := BitVec 64

/-- The scaled features fit into a buffer. -/
theorem features_fit : 6 ≤ 32 := by decide

/-- The activations of a hidden layer fill a buffer. -/
theorem activations_fit : 32 ≤ 32 := le_rfl

/-- The outputs fit into a buffer. -/
theorem outputs_fit : 2 ≤ 32 := by decide

namespace Mlp

open CountedLoop

variable {M N size : ℕ}

/-! ## The routines -/

/-- The index `i * N + j` of a flat `M × N` array. -/
def rowMajor (i : Fin M) (j : Fin N) : Fin (M * N) :=
  ⟨i * N + j, by
    calc
      i.val * N + j.val < i.val * N + N := Nat.add_lt_add_left j.isLt _
      _ = (i.val + 1) * N := by rw [Nat.succ_mul]
      _ ≤ M * N := Nat.mul_le_mul_right N i.isLt⟩

/-- The inner loop of `linear_layer`: one 64-bit sum of products of sign-extended words. -/
def rowSum (W : Vector S32 (M * N)) (x : Vector S32 size) (hN : N ≤ size) (i : Fin M) : S64 :=
  accumulate N fun j ↦
    (W[rowMajor i j]).signExtend 64 * (x[Fin.castLE hN j]).signExtend 64

/-- `sum >> 16` stored into an `int32_t`. -/
def narrow (sum : S64) : S32 := (sum.sshiftRight 16).setWidth 32

def linearLayer {sizeY : ℕ} (M N : ℕ) (W : Vector S32 (M * N)) (x : Vector S32 size)
    (y : Vector S32 sizeY) (hN : N ≤ size) (hM : M ≤ sizeY) : Vector S32 sizeY :=
  rewriteCells M hM (fun i _ ↦ narrow (rowSum W x hN i)) y

/-- `MAX(a, 0)` on signed words. -/
def maxZero (a : S32) : S32 := if (0 : S32).slt a then a else 0

def relu (tensor : Vector S32 size) (n : ℕ) (h : n ≤ size) : Vector S32 size :=
  rewriteCells n h (fun _ a ↦ maxZero a) tensor

/-- One pass of the loop of `standard_scaler`: the difference is taken on the side where it is not
negative, multiplied and divided as `uint64_t`, and only then narrowed and negated. -/
def scaleFeature (x mean scale : S64) : S32 :=
  if x.slt mean then -(((mean - x) * 65536 / scale).setWidth 32)
  else ((x - mean) * 65536 / scale).setWidth 32

def standardScaler (x : Vector S64 N) (y : Vector S32 size) (mean scale : Vector S64 N)
    (h : N ≤ size) : Vector S32 size :=
  rewriteCells N h (fun i _ ↦ scaleFeature (x.get i) (mean.get i) (scale.get i)) y

/-! ## What they compute -/

/-- A flat array read as a matrix. -/
def matrixOf (W : Vector S32 (M * N)) : Matrix (Fin M) (Fin N) S32 :=
  Matrix.of fun i j ↦ W[rowMajor i j]

/-- Matrix product with 64-bit sums, each shifted right by 16 and narrowed to 32 bits. -/
def matVec (W : Matrix (Fin M) (Fin N) S32) (x : Fin N → S32) : Fin M → S32 :=
  fun i ↦ narrow (∑ j, (W i j).signExtend 64 * (x j).signExtend 64)

/-- A row with at most one weight gives this weight times its input. -/
theorem matVec_of_single {W : Matrix (Fin M) (Fin N) S32} {i : Fin M} (j : Fin N)
    (h : ∀ k, k ≠ j → W i k = 0) (x : Fin N → S32) :
    matVec W x i = narrow ((W i j).signExtend 64 * (x j).signExtend 64) := by
  have hsum : ∑ k, (W i k).signExtend 64 * (x k).signExtend 64 =
      (W i j).signExtend 64 * (x j).signExtend 64 := by
    apply Fintype.sum_eq_single j
    intro k hk
    rw [h k hk]
    simp
  rw [matVec, hsum]

/-- The first `n` cells of a buffer. -/
def cells (buffer : Vector S32 size) (n : ℕ) (h : n ≤ size) : Fin n → S32 :=
  fun j ↦ buffer[Fin.castLE h j]

@[simp]
theorem cells_ofFn {n : ℕ} (values : Fin n → S32) :
    cells (Vector.ofFn values) n le_rfl = values := by
  funext i
  simp [cells]

theorem rowSum_eq_sum (W : Vector S32 (M * N)) (x : Vector S32 size) (hN : N ≤ size)
    (i : Fin M) :
    rowSum W x hN i =
      ∑ j, (matrixOf W i j).signExtend 64 * (cells x N hN j).signExtend 64 :=
  accumulate_eq_sum _

theorem getElem_linearLayer {sizeY : ℕ} (W : Vector S32 (M * N)) (x : Vector S32 size)
    (y : Vector S32 sizeY) (hN : N ≤ size) (hM : M ≤ sizeY) (i : ℕ) (hi : i < sizeY) :
    (linearLayer M N W x y hN hM)[i] =
      if h : i < M then matVec (matrixOf W) (cells x N hN) ⟨i, h⟩ else y[i] := by
  unfold linearLayer
  rw [getElem_rewriteCells]
  simp only [matVec, rowSum_eq_sum]

theorem cells_linearLayer {sizeY : ℕ} (W : Vector S32 (M * N)) (x : Vector S32 size)
    (y : Vector S32 sizeY) (hN : N ≤ size) (hM : M ≤ sizeY) :
    cells (linearLayer M N W x y hN hM) M hM = matVec (matrixOf W) (cells x N hN) := by
  funext i
  simp [cells, getElem_linearLayer]

/-- A layer as wide as its output buffer leaves nothing of the old contents. -/
theorem linearLayer_eq_ofFn (W : Vector S32 (M * N)) (x : Vector S32 size) (y : Vector S32 M)
    (hN : N ≤ size) :
    linearLayer M N W x y hN le_rfl = Vector.ofFn (matVec (matrixOf W) (cells x N hN)) := by
  apply Vector.ext
  intro i hi
  rw [getElem_linearLayer, dif_pos hi, Vector.getElem_ofFn]

theorem getElem_relu (tensor : Vector S32 size) (n : ℕ) (h : n ≤ size) (i : ℕ) (hi : i < size) :
    (relu tensor n h)[i] = if i < n then maxZero tensor[i] else tensor[i] := by
  unfold relu
  rw [getElem_rewriteCells]
  split <;> rfl

/-- A pass over the whole buffer applies `MAX(., 0)` to every cell. -/
theorem relu_eq_ofFn (tensor : Vector S32 size) :
    relu tensor size le_rfl = Vector.ofFn (maxZero ∘ cells tensor size le_rfl) := by
  apply Vector.ext
  intro i hi
  rw [getElem_relu, if_pos hi, Vector.getElem_ofFn]
  rfl

@[simp]
theorem maxZero_maxZero (a : S32) : maxZero (maxZero a) = maxZero a := by
  unfold maxZero
  split
  · simp_all
  · simp

theorem getElem_standardScaler (x : Vector S64 N) (y : Vector S32 size) (mean scale : Vector S64 N)
    (h : N ≤ size) (i : ℕ) (hi : i < size) :
    (standardScaler x y mean scale h)[i] =
      if hN : i < N then scaleFeature (x.get ⟨i, hN⟩) (mean.get ⟨i, hN⟩) (scale.get ⟨i, hN⟩)
      else y[i] := by
  unfold standardScaler
  rw [getElem_rewriteCells]

theorem cells_standardScaler (x : Vector S64 N) (y : Vector S32 size) (mean scale : Vector S64 N)
    (h : N ≤ size) :
    cells (standardScaler x y mean scale h) N h =
      fun i ↦ scaleFeature (x.get i) (mean.get i) (scale.get i) := by
  funext i
  simp [cells, getElem_standardScaler]

end Mlp

end NNeBPF

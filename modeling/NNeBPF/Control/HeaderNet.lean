import NNeBPF.Control.HotUpdating
import NNeBPF.Mlp.HeaderFile

/-!
# The network that `hot_updating` takes from the header

`hot_updating.c` includes the generated header and copies its arrays into an uninitialised
`struct Net` with the sizes that the header defines.  For the network of `mlp.py` the copies fill
the structure with exactly the rounded parameters.  For other sizes nothing but the header decides
whether they stay inside the structure.
-/

namespace NNeBPF

open Mlp HeaderText FixedPoint FixedWidth

/-! ## `hot_updating.c` -/

/-- A static array of `width`-bit integers; elements without initialiser are zero. -/
def staticArray (width : ℕ) (declared : IntArray) : List (BitVec width) :=
  declared.values.map (BitVec.ofInt width) ++
    List.replicate (declared.length - declared.values.length) 0

/-- The array of this type and name. -/
def arrayNamed (known : Known) (width : ℕ) (type name : String) : Option (List (BitVec width)) :=
  (known.array? name.toList).bind fun declared ↦
    if declared.type = type.toList then some (staticArray width declared) else none

/-- `memcpy` of `count` elements, `none` if it reads or writes outside of the arrays. -/
def memcpy {width n : ℕ} (dst : Vector (BitVec width) n) (src : List (BitVec width)) (count : ℕ) :
    Option (Vector (BitVec width) n) :=
  if count ≤ n ∧ count ≤ src.length then
    some (Vector.ofFn fun k ↦ if k.val < count then src.getD k 0 else dst.get k)
  else none

/-- The five copies of `main` into the local variable `net`. -/
def copyParams (net : Net) (N0 N1 N2 N3 : ℕ) (mean scale : List S64)
    (layer0Weight layer1Weight layer2Weight : List S32) : Option Net := do
  let mean ← memcpy net.mean mean N0
  let scale ← memcpy net.scale scale N0
  let layer0Weight ← memcpy net.layer0Weight layer0Weight (N1 * N0)
  let layer1Weight ← memcpy net.layer1Weight layer1Weight (N2 * N1)
  let layer2Weight ← memcpy net.layer2Weight layer2Weight (N3 * N2)
  return { layer0Weight, layer1Weight, layer2Weight, mean, scale }

/-- What `main` makes of an uninitialised `net`. -/
def importedNet (known : Known) (net : Net) : Option Net := do
  let N0 ← known.value? "N0".toList
  let N1 ← known.value? "N1".toList
  let N2 ← known.value? "N2".toList
  let N3 ← known.value? "N3".toList
  let mean ← arrayNamed known 64 "int64_t" "mean"
  let scale ← arrayNamed known 64 "int64_t" "scale"
  let layer0Weight ← arrayNamed known 32 "int32_t" "layer_0_weight"
  let layer1Weight ← arrayNamed known 32 "int32_t" "layer_1_weight"
  let layer2Weight ← arrayNamed known 32 "int32_t" "layer_2_weight"
  copyParams net N0 N1 N2 N3 mean scale layer0Weight layer1Weight layer2Weight

/-! ## Copies -/

theorem isSome_memcpy {width n : ℕ} (dst : Vector (BitVec width) n) (src : List (BitVec width))
    (count : ℕ) : (memcpy dst src count).isSome ↔ count ≤ n ∧ count ≤ src.length := by
  unfold memcpy
  split <;> simp_all

/-- A copy of all elements does not depend on what was there before. -/
theorem memcpy_all {width n : ℕ} (dst : Vector (BitVec width) n) {ints : List ℤ}
    (hlength : ints.length = n) :
    memcpy dst (ints.map (BitVec.ofInt width)) n = some (wordsOf width ints hlength) := by
  have hsrc : (ints.map (BitVec.ofInt width)).length = n := by rw [List.length_map, hlength]
  have hwords : (Vector.ofFn fun k : Fin n ↦ if k.val < n then
      (ints.map (BitVec.ofInt width)).getD k 0 else dst.get k) = wordsOf width ints hlength := by
    apply Vector.ext
    intro k hk
    have hk' : k < ints.length := hlength ▸ hk
    rw [Vector.getElem_ofFn, if_pos hk, List.getD_eq_getElem _ _ (by omega), List.getElem_map,
      getElem_wordsOf width hlength hk (List.getElem?_eq_getElem hk')]
  rw [memcpy, if_pos ⟨le_rfl, hsrc.ge⟩, hwords]

theorem isSome_bind_iff {α β : Type} {x : Option α} {f : α → Option β} {P : Prop}
    (hf : ∀ a, (f a).isSome ↔ P) : (x >>= f).isSome ↔ x.isSome ∧ P := by
  cases x with
  | none => simp
  | some a => simpa using hf a

/-- The copies work out if and only if each of them stays inside of both arrays. -/
theorem isSome_copyParams (net : Net) (N0 N1 N2 N3 : ℕ) (mean scale : List S64)
    (layer0Weight layer1Weight layer2Weight : List S32) :
    (copyParams net N0 N1 N2 N3 mean scale layer0Weight layer1Weight layer2Weight).isSome ↔
      (N0 ≤ 6 ∧ N0 ≤ mean.length) ∧ (N0 ≤ 6 ∧ N0 ≤ scale.length) ∧
        (N1 * N0 ≤ 32 * 6 ∧ N1 * N0 ≤ layer0Weight.length) ∧
          (N2 * N1 ≤ 32 * 32 ∧ N2 * N1 ≤ layer1Weight.length) ∧
            (N3 * N2 ≤ 2 * 32 ∧ N3 * N2 ≤ layer2Weight.length) := by
  rw [← isSome_memcpy net.mean, ← isSome_memcpy net.scale, ← isSome_memcpy net.layer0Weight,
    ← isSome_memcpy net.layer1Weight, ← isSome_memcpy net.layer2Weight]
  apply isSome_bind_iff
  intro _
  apply isSome_bind_iff
  intro _
  apply isSome_bind_iff
  intro _
  apply isSome_bind_iff
  intro _
  rw [isSome_bind_iff (P := True) fun _ ↦ iff_of_true rfl trivial, and_true]

/-! ## The header that `mlp_quant.py` writes -/

theorem arrayNamed_eq {known : Known} {type name : String} {values : List ℤ} (width : ℕ)
    (h : known.array? name.toList = some ⟨type.toList, name.toList, values.length, values⟩) :
    arrayNamed known width type name = some (values.map (BitVec.ofInt width)) := by
  rw [arrayNamed, h, Option.bind_some, if_pos rfl, staticArray, Nat.sub_self,
    List.replicate_zero, List.append_nil]

section

variable (conversions : Conversions) (fixPoint : FixPointArg) (tensor0 tensor1 tensor2 : Tensor)
  (mean scale : List ℚ) (net : Net)

/-- With three tensors every name that `main` uses is found. -/
theorem importedNet_eq_copyParams :
    importedNet (knownParams conversions fixPoint [tensor0, tensor1, tensor2] mean scale) net =
      copyParams net tensor0.cols tensor0.rows tensor1.rows tensor2.rows
        ((printedStats conversions mean).map (BitVec.ofInt 64))
        ((printedStats conversions scale).map (BitVec.ofInt 64))
        ((printedParams conversions fixPoint.int tensor0.params).map (BitVec.ofInt 32))
        ((printedParams conversions fixPoint.int tensor1.params).map (BitVec.ofInt 32))
        ((printedParams conversions fixPoint.int tensor2.params).map (BitVec.ofInt 32)) := by
  set known := knownParams conversions fixPoint [tensor0, tensor1, tensor2] mean scale
  have hN0 : known.value? "N0".toList = some tensor0.cols := value?_cols _ _ _ _ _ rfl
  have hrows (i : ℕ) (tensor : Tensor) (h : [tensor0, tensor1, tensor2][i]? = some tensor) :
      known.value? (dimName (i + 1)).toList = some tensor.rows := value?_rows _ _ _ _ _ h
  have hN1 : known.value? "N1".toList = some tensor0.rows := hrows 0 tensor0 rfl
  have hN2 : known.value? "N2".toList = some tensor1.rows := hrows 1 tensor1 rfl
  have hN3 : known.value? "N3".toList = some tensor2.rows := hrows 2 tensor2 rfl
  have hmean : arrayNamed known 64 "int64_t" "mean" = some _ :=
    arrayNamed_eq 64 (array?_mean _ _ _ _ _)
  have hscale : arrayNamed known 64 "int64_t" "scale" = some _ :=
    arrayNamed_eq 64 (array?_scale _ _ _ _ _)
  have hlayer (i : ℕ) (tensor : Tensor) (h : [tensor0, tensor1, tensor2][i]? = some tensor) :
      arrayNamed known 32 "int32_t" (layerName i) =
        some ((printedParams conversions fixPoint.int tensor.params).map (BitVec.ofInt 32)) :=
    arrayNamed_eq 32 (array?_layerName _ _ _ _ _ h)
  have hlayer0 := hlayer 0 tensor0 rfl
  have hlayer1 := hlayer 1 tensor1 rfl
  have hlayer2 := hlayer 2 tensor2 rfl
  have hname0 : layerName 0 = "layer_0_weight" := rfl
  have hname1 : layerName 1 = "layer_1_weight" := rfl
  have hname2 : layerName 2 = "layer_2_weight" := rfl
  rw [hname0] at hlayer0
  rw [hname1] at hlayer1
  rw [hname2] at hlayer2
  rw [importedNet, hN0, hN1, hN2, hN3, hmean, hscale, hlayer0, hlayer1, hlayer2]
  rfl

/-- Whether the copies stay inside of `struct Net` and of the arrays is decided by the sizes in the
header; a network of another shape is not turned down by anything else. -/
theorem importedNet_isSome_iff :
    (importedNet (knownParams conversions fixPoint [tensor0, tensor1, tensor2] mean scale)
        net).isSome ↔
      (tensor0.cols ≤ 6 ∧ tensor0.cols ≤ mean.length ∧ tensor0.cols ≤ scale.length) ∧
        tensor0.rows * tensor0.cols ≤ 192 ∧
        (tensor1.rows * tensor0.rows ≤ 1024 ∧
          tensor1.rows * tensor0.rows ≤ tensor1.rows * tensor1.cols) ∧
        (tensor2.rows * tensor1.rows ≤ 64 ∧
          tensor2.rows * tensor1.rows ≤ tensor2.rows * tensor2.cols) := by
  rw [importedNet_eq_copyParams, isSome_copyParams]
  simp only [List.length_map, length_printedParams, length_printedStats]
  omega

end

/-- The `state_dict` of the network that `mlp.py` defines. -/
def stateDict (stats : SavedStats) : List Tensor :=
  [⟨32, 6, stats.layer0Weight⟩, ⟨32, 32, stats.layer1Weight⟩, ⟨2, 32, stats.layer2Weight⟩]

/-- What `hot_updating.c` knows if it is compiled with the header for a trained network. -/
def knownOf (conversions : Conversions) (stats : SavedStats) : Known :=
  knownParams conversions sixteen (stateDict stats) (List.ofFn stats.mean) (List.ofFn stats.scale)

section

variable (conversions : Conversions) {stats : SavedStats} (hfits : Representable stats)

theorem printedStats_ofFn {n : ℕ} {values : Fin n → ℚ}
    (hvalues : ∀ j, Fits 64 (roundHalfEven (values j))) :
    printedStats conversions (List.ofFn values) = writtenStats values := by
  rw [printedStats, List.map_ofFn]
  apply congrArg List.ofFn
  funext j
  exact conversions.toInt_astypeInt64 _ (hvalues j)

include hfits

/-- For the network of `mlp.py` the copies leave nothing of the uninitialised structure. -/
theorem importedNet_knownOf (net : Net) :
    importedNet (knownOf conversions stats) net = some (exportedNet stats) := by
  have hint : sixteen.int = 16 := by decide
  rw [knownOf, stateDict, importedNet_eq_copyParams, hint,
    printedStats_ofFn conversions hfits.mean, printedStats_ofFn conversions hfits.scale,
    printedParams_eq conversions hfits.layer0, printedParams_eq conversions hfits.layer1,
    printedParams_eq conversions hfits.layer2, copyParams,
    memcpy_all net.mean (length_writtenStats stats.mean),
    memcpy_all net.scale (length_writtenStats stats.scale),
    memcpy_all net.layer0Weight (length_writtenParams 16 stats.layer0Weight),
    memcpy_all net.layer1Weight (length_writtenParams 16 stats.layer1Weight),
    memcpy_all net.layer2Weight (length_writtenParams 16 stats.layer2Weight)]
  rfl

/-- From the text of the header to the map: if the rounded parameters are values of their types, a
run of `hot_updating` compiled with the header for a trained network selects a slot that holds
exactly the rounded parameters, whatever `net` holds before the copies, and the slot that was active
keeps what it held. -/
theorem hotUpdate_of_header (net : Net) {nn : NnMaps} (h : ValidIdx nn.activeIdx) :
    ∃ imported, importedNet (knownOf conversions stats) net = some imported ∧
      weightsOf imported.layer0Weight = quantized stats.layer0Weight ∧
      weightsOf imported.layer1Weight = quantized stats.layer1Weight ∧
      weightsOf imported.layer2Weight = quantized stats.layer2Weight ∧
      (∀ j, (imported.mean.get j).toInt = roundHalfEven (stats.mean j)) ∧
      (∀ j, (imported.scale.get j).toInt = roundHalfEven (stats.scale j)) ∧
      BpfMap.ArrayMap.lookup (hotUpdate imported nn).nnParameters
        (hotUpdate imported nn).activeIdx = some imported ∧
      BpfMap.ArrayMap.lookup (hotUpdate imported nn).nnParameters nn.activeIdx =
        BpfMap.ArrayMap.lookup nn.nnParameters nn.activeIdx :=
  ⟨exportedNet stats, importedNet_knownOf conversions hfits net,
    weightsOf_writtenParams hfits.layer0, weightsOf_writtenParams hfits.layer1,
    weightsOf_writtenParams hfits.layer2, toInt_writtenStats hfits.mean,
    toInt_writtenStats hfits.scale, lookup_hotUpdate_activeIdx (exportedNet stats) h,
    lookup_hotUpdate_of_active _ h⟩

end

/-- The shipped network, trained again from the numbers that its integers stand for. -/
theorem hotUpdate_of_header_shippedNet :
    ∃ imported, importedNet (knownOf wrapping (statsOf shippedNet)) Net.zero = some imported ∧
      weightsOf imported.layer0Weight = weightsOf shippedNet.layer0Weight ∧
      BpfMap.ArrayMap.lookup (hotUpdate imported NnMaps.zero).nnParameters
        (hotUpdate imported NnMaps.zero).activeIdx = some imported := by
  have hidx : ValidIdx NnMaps.zero.activeIdx := Or.inl rfl
  have hquantized : quantized (statsOf shippedNet).layer0Weight =
      weightsOf shippedNet.layer0Weight := quantized_weightsOf shippedNet.layer0Weight
  obtain ⟨imported, himported, hlayer0, -, -, -, -, hslot, -⟩ :=
    hotUpdate_of_header wrapping (representable_statsOf shippedNet) Net.zero hidx
  exact ⟨imported, himported, hlayer0.trans hquantized, hslot⟩

/-- The text of a header carries a whole `struct Net`: every network has one that brings it back. -/
theorem importedNet_knownOf_statsOf (conversions : Conversions) (net uninitialised : Net) :
    importedNet (knownOf conversions (statsOf net)) uninitialised = some net := by
  rw [importedNet_knownOf conversions (representable_statsOf net), exportedNet_statsOf]

end NNeBPF

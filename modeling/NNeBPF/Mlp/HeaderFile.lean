import NNeBPF.Library.HeaderEntries
import NNeBPF.Mlp.Quantization

/-!
# The header file as text

`mlp_quant.py` prints the rounded parameters as C text.  Its two printing loops, the one that puts
the comma in front of every element but the first and the one that puts it behind every element but
the last, print the same text; what a C compiler finds in the file is exactly what was rounded,
under the names and with the sizes that the C code expects.
-/

namespace NNeBPF.Mlp

open HeaderText FixedPoint FixedWidth

/-- One entry of `state_dict`. -/
structure Tensor where
  rows : ℕ
  cols : ℕ
  params : Matrix (Fin rows) (Fin cols) ℚ

/-! ## `mlp_quant.py` -/

/-- `sys.argv[2]`, where it is a sequence of decimal digits. -/
structure FixPointArg where
  digits : List Char
  ne_nil : digits ≠ []
  isDigit : ∀ c ∈ digits, c.isDigit = true

/-- `int(sys.argv[2])`. -/
def FixPointArg.int (fixPoint : FixPointArg) : ℕ := Nat.ofDigitChars 10 fixPoint.digits 0

/-- The conversions of torch and numpy, element by element: `.int()` and `.astype(np.int64)`.  They
keep the values of their types; what becomes of other values is not specified. -/
structure Conversions where
  int : ℤ → S32
  astypeInt64 : ℤ → S64
  toInt_int : ∀ n, Fits 32 n → (int n).toInt = n
  toInt_astypeInt64 : ∀ n, Fits 64 n → (astypeInt64 n).toInt = n

/-- The integers that are printed for a tensor of weights. -/
def printedParams {M N : ℕ} (conversions : Conversions) (fixPoint : ℕ)
    (params : Matrix (Fin M) (Fin N) ℚ) : List ℤ :=
  (writtenParams fixPoint params).map fun n ↦ (conversions.int n).toInt

/-- The integers that are printed for the mean or the scale. -/
def printedStats (conversions : Conversions) (values : List ℚ) : List ℤ :=
  values.map fun value ↦ (conversions.astypeInt64 (roundHalfEven value)).toInt

/-- One turn of the loop of `write_params_to_file`. -/
def writeParam (f : String) : ℤ × ℕ → String
  | (param, idx) => if idx = 0 then f ++ toString param else f ++ ", " ++ toString param

def writeParamsToFile (f name : String) (params : List ℤ) : String :=
  let f := f ++ "static const int32_t " ++ name ++ "[" ++ toString params.length ++ "] = \x7b"
  let f := params.zipIdx.foldl writeParam f
  f ++ "\x7d;\n\n"

/-- One turn of the loops for the mean and the scale. -/
def writeStat (length : ℕ) (f : String) : ℤ × ℕ → String
  | (value, idx) =>
    let f := f ++ toString value
    if (idx : ℤ) < length - 1 then f ++ ", " else f

/-- The part of the script for `mean`, and the part for `scale`. -/
def writeStats (f name : String) (values : List ℤ) : String :=
  let f := f ++ "// " ++ name ++ "\n"
  let f := f ++ "static const int64_t " ++ name ++ "[" ++ toString values.length ++ "] = \x7b"
  let f := values.zipIdx.foldl (writeStat values.length) f
  f ++ "\x7d;\n\n"

/-- One turn of the loop over `state_dict`. -/
def writeTensor (conversions : Conversions) (fixPoint : ℕ) (f : String) : Tensor × ℕ → String
  | (tensor, i) =>
    let f :=
      if i = 0 then f ++ "#define N" ++ toString i ++ " " ++ toString tensor.cols ++ "\n" else f
    let f := f ++ "#define N" ++ toString (i + 1) ++ " " ++ toString tensor.rows ++ "\n"
    writeParamsToFile f ("layer_" ++ toString i ++ "_weight")
      (printedParams conversions fixPoint tensor.params)

/-- What the script writes to `mlp_params.bpf.h`. -/
def mlpParamsHeader (conversions : Conversions) (fixPoint : FixPointArg) (stateDict : List Tensor)
    (mean scale : List ℚ) : String :=
  let f := "" ++ "#ifndef MLP_PARAMS_BPF_H\n"
  let f := f ++ "#define MLP_PARAMS_BPF_H\n\n"
  let f := f ++ "#define FIX_POINT " ++ String.ofList fixPoint.digits ++ "\n\n"
  let f := stateDict.zipIdx.foldl (writeTensor conversions fixPoint.int) f
  let f := writeStats f "mean" (printedStats conversions mean)
  let f := writeStats f "scale" (printedStats conversions scale)
  f ++ "\n#endif\n"

section

variable (conversions : Conversions) {M N : ℕ}

theorem length_printedParams (fixPoint : ℕ) (params : Matrix (Fin M) (Fin N) ℚ) :
    (printedParams conversions fixPoint params).length = M * N := by
  rw [printedParams, List.length_map, length_writtenParams]

theorem length_printedStats (values : List ℚ) :
    (printedStats conversions values).length = values.length :=
  List.length_map _

/-- Rounded weights that are values of the type are printed as they are. -/
theorem printedParams_eq {fixPoint : ℕ} {params : Matrix (Fin M) (Fin N) ℚ}
    (hfits : ∀ i j, Fits 32 (roundHalfEven (params i j * 2 ^ fixPoint))) :
    printedParams conversions fixPoint params = writtenParams fixPoint params := by
  rw [printedParams, writtenParams_eq_ofFn, List.map_ofFn]
  congr 1
  funext k
  exact conversions.toInt_int _ (hfits k.divNat k.modNat)

theorem printedStats_eq {values : List ℚ}
    (hfits : ∀ value ∈ values, Fits 64 (roundHalfEven value)) :
    printedStats conversions values = values.map roundHalfEven :=
  List.map_congr_left fun value hvalue ↦ conversions.toInt_astypeInt64 _ (hfits value hvalue)

end

/-! ## The two printing loops -/

/-- The comma in front of an element, from the second element on. -/
theorem toList_foldl_writeParam_succ (f : String) (params : List ℤ) (k : ℕ) :
    ((params.zipIdx (k + 1)).foldl writeParam f).toList =
      f.toList ++ params.flatMap fun param ↦ ", ".toList ++ (toString param).toList := by
  induction params generalizing f k with
  | nil => exact (List.append_nil _).symm
  | cons param params ih =>
    have hturn : writeParam f (param, k + 1) = f ++ ", " ++ toString param := by
      rw [writeParam, if_neg (Nat.succ_ne_zero k)]
    rw [List.zipIdx_cons, List.foldl_cons, hturn, ih, List.flatMap_cons, String.toList_append,
      String.toList_append, List.append_assoc, List.append_assoc, List.append_assoc]

theorem toList_foldl_writeParam (f : String) (params : List ℤ) :
    (params.zipIdx.foldl writeParam f).toList = f.toList ++ valuesText params := by
  cases params with
  | nil => exact (List.append_nil _).symm
  | cons param params =>
    have hturn : writeParam f (param, 0) = f ++ toString param := by
      rw [writeParam, if_pos rfl]
    rw [List.zipIdx_cons, List.foldl_cons, hturn, toList_foldl_writeParam_succ, valuesText_cons,
      String.toList_append, List.append_assoc]

/-- The comma behind an element, up to the last but one. -/
theorem toList_foldl_writeStat (f : String) (values : List ℤ) {k length : ℕ}
    (hlength : length = k + values.length) :
    ((values.zipIdx k).foldl (writeStat length) f).toList = f.toList ++ valuesText values := by
  induction values generalizing f k with
  | nil => exact (List.append_nil _).symm
  | cons value values ih =>
    rw [List.length_cons] at hlength
    rw [List.zipIdx_cons, List.foldl_cons]
    cases values with
    | nil =>
      have hturn : writeStat length f (value, k) = f ++ toString value := by
        rw [List.length_nil] at hlength
        rw [writeStat, if_neg (by omega)]
      rw [hturn, List.zipIdx_nil, List.foldl_nil, String.toList_append, valuesText_singleton]
    | cons next values =>
      have hturn : writeStat length f (value, k) = f ++ toString value ++ ", " := by
        rw [List.length_cons] at hlength
        rw [writeStat, if_pos (by omega)]
      rw [hturn, ih _ (by omega), valuesText_cons_cons, String.toList_append,
        String.toList_append, List.append_assoc, List.append_assoc, List.append_assoc,
        List.append_assoc]
      rfl

/-! ## What the file holds -/

def int32Array (name : String) (params : List ℤ) : IntArray :=
  ⟨"int32_t".toList, name.toList, params.length, params⟩

def int64Array (name : String) (values : List ℤ) : IntArray :=
  ⟨"int64_t".toList, name.toList, values.length, values⟩

theorem int32Array_eq {name : String} {params : List ℤ} {n : ℕ} (h : params.length = n) :
    int32Array name params = ⟨"int32_t".toList, name.toList, n, params⟩ := by
  subst h
  rfl

theorem int64Array_eq {name : String} {values : List ℤ} {n : ℕ} (h : values.length = n) :
    int64Array name values = ⟨"int64_t".toList, name.toList, n, values⟩ := by
  subst h
  rfl

/-- The name of the array for the tensor with index `i`. -/
def layerName (i : ℕ) : String := "layer_" ++ toString i ++ "_weight"

/-- The name of the number of neurons in front of the layer with index `i`. -/
def dimName (i : ℕ) : String := "N" ++ toString i

def dimEntry (i n : ℕ) : Entry := .define (dimName i).toList [.word (Nat.toDigits 10 n)]

/-! The fixed pieces of the file, cut where the tokens end. -/

theorem toList_int32Type : "static const int32_t ".toList =
    "static const ".toList ++ ("int32_t".toList ++ [' ']) := by decide

theorem toList_int64Type : "static const int64_t ".toList =
    "static const ".toList ++ ("int64_t".toList ++ [' ']) := by decide

theorem toList_bracket : "[".toList = ['['] := by decide

theorem toList_opening : "] = \x7b".toList = [']'] ++ " = \x7b".toList := by decide

theorem toList_closing : "\x7d;\n\n".toList = ['\x7d'] ++ ([';'] ++ "\n\n".toList) := by decide

theorem toList_comment : "// ".toList = '/' :: '/' :: [' '] := by decide

theorem toList_newline : "\n".toList = ['\n'] := by decide

theorem toList_writeParamsToFile (f name : String) (params : List ℤ) :
    (writeParamsToFile f name params).toList =
      f.toList ++ (arrayText (int32Array name params) ++ "\n\n".toList) := by
  unfold int32Array
  rw [arrayText_append]
  simp only [writeParamsToFile, toList_foldl_writeParam, String.toList_append,
    toList_toString_nat, toList_int32Type, toList_bracket, toList_opening, toList_closing,
    List.append_assoc]

theorem toList_writeStats (f name : String) (values : List ℤ) :
    (writeStats f name values).toList =
      f.toList ++ (('/' :: '/' :: (' ' :: name.toList) ++ ['\n']) ++
        (arrayText (int64Array name values) ++ "\n\n".toList)) := by
  have hlength : values.length = 0 + values.length := (Nat.zero_add _).symm
  unfold int64Array
  rw [arrayText_append]
  simp only [writeStats, toList_foldl_writeStat _ _ hlength, String.toList_append,
    toList_toString_nat, toList_int64Type, toList_bracket, toList_opening, toList_closing,
    toList_comment, toList_newline, List.append_assoc, List.cons_append, List.nil_append]

theorem reads_newline : Reads ['\n'] [] := reads_blank fun _ ↦ rfl

theorem writes_newlines {f g : String} {text : List Char} {found : List Entry}
    (hg : g.toList = f.toList ++ (text ++ "\n\n".toList)) (htext : Reads text found) :
    Writes f g found := by
  have hnewlines : Reads "\n\n".toList [] := reads_newline.append reads_newline
  have hall := htext.append hnewlines
  rw [List.append_nil] at hall
  exact ⟨text ++ "\n\n".toList, hg, hall⟩

theorem isName_int32 : IsName "int32_t".toList := isName_of_check (by decide)

theorem isName_int64 : IsName "int64_t".toList := isName_of_check (by decide)

theorem writes_writeParamsToFile (f : String) {name : String} (params : List ℤ)
    (hname : IsName name.toList) :
    Writes f (writeParamsToFile f name params) [.array (int32Array name params)] :=
  writes_newlines (toList_writeParamsToFile f name params) (reads_arrayText isName_int32 hname)

theorem reads_statComment {name : String} (hname : IsName name.toList) :
    Reads ('/' :: '/' :: (' ' :: name.toList) ++ ['\n']) [] := by
  apply reads_blank
  apply lexes_comment
  intro hmem
  rcases List.mem_cons.mp hmem with hblank | hletter
  · exact absurd hblank (by decide)
  · exact absurd (hname.2 _ hletter) (by decide)

theorem writes_writeStats (f : String) {name : String} (values : List ℤ)
    (hname : IsName name.toList) :
    Writes f (writeStats f name values) [.array (int64Array name values)] := by
  have harray : Reads (arrayText (int64Array name values)) [.array (int64Array name values)] :=
    reads_arrayText isName_int64 hname
  refine writes_newlines ?_ ((reads_statComment hname).append harray)
  rw [toList_writeStats, List.append_assoc _ (arrayText _)]

/-- The entries for one tensor; the first one also tells the number of inputs. -/
def tensorEntries (conversions : Conversions) (fixPoint : ℕ) : Tensor × ℕ → List Entry
  | (tensor, i) =>
    (if i = 0 then [dimEntry 0 tensor.cols] else []) ++ [dimEntry (i + 1) tensor.rows] ++
      [.array (int32Array (layerName i) (printedParams conversions fixPoint tensor.params))]

theorem isName_dimName (i : ℕ) : IsName (dimName i).toList := by
  have hletter : IsName "N".toList := isName_of_check (by decide)
  have hdigits := hletter.append fun c (hc : c ∈ Nat.toDigits 10 i) ↦ wordChar_of_mem_toDigits hc
  rw [dimName, String.toList_append, toList_toString_nat]
  exact hdigits

theorem isName_layerName (i : ℕ) : IsName (layerName i).toList := by
  have hletters : IsName "layer_".toList := isName_of_check (by decide)
  have hsuffix : IsName "_weight".toList := isName_of_check (by decide)
  have hdigits := hletters.append fun c (hc : c ∈ Nat.toDigits 10 i) ↦ wordChar_of_mem_toDigits hc
  rw [layerName, String.toList_append, String.toList_append, toList_toString_nat]
  exact hdigits.append hsuffix.2

/-- The line `#define N2 32` and its like. -/
theorem writes_dim (f : String) (i n : ℕ) :
    Writes f (f ++ "#define N" ++ toString i ++ " " ++ toString n ++ "\n") [dimEntry i n] := by
  have hpieces : "#define N".toList = "#define ".toList ++ "N".toList := by decide
  have hblank : " ".toList = [' '] := by decide
  refine ⟨_, ?_, reads_defineText (isName_dimName i) (isName_toDigits n)⟩
  unfold defineText dimName
  simp only [String.toList_append, toList_toString_nat, hpieces, hblank, toList_newline,
    List.append_assoc]

theorem writes_writeTensor (conversions : Conversions) (fixPoint : ℕ) (f : String)
    (entry : Tensor × ℕ) :
    Writes f (writeTensor conversions fixPoint f entry)
      (tensorEntries conversions fixPoint entry) := by
  obtain ⟨tensor, i⟩ := entry
  have hinputs : Writes f
      (if i = 0 then f ++ "#define N" ++ toString i ++ " " ++ toString tensor.cols ++ "\n" else f)
      (if i = 0 then [dimEntry 0 tensor.cols] else []) := by
    by_cases hi : i = 0
    · subst hi
      exact writes_dim f 0 tensor.cols
    · rw [if_neg hi, if_neg hi]
      exact writes_refl f
  exact (hinputs.trans (writes_dim _ (i + 1) tensor.rows)).trans
    (writes_writeParamsToFile _ _ (isName_layerName i))

/-- The name that the include guard defines. -/
def guardName : String := "MLP_PARAMS_BPF_H"

/-- What stands between the lines of the include guard. -/
def bodyEntries (conversions : Conversions) (fixPoint : FixPointArg) (stateDict : List Tensor)
    (mean scale : List ℚ) : List Entry :=
  [.define "FIX_POINT".toList [.word fixPoint.digits]] ++
    stateDict.zipIdx.flatMap (tensorEntries conversions fixPoint.int) ++
      [.array (int64Array "mean" (printedStats conversions mean))] ++
        [.array (int64Array "scale" (printedStats conversions scale))]

theorem isName_guardName : IsName guardName.toList := isName_of_check (by decide)

theorem isName_fixPoint : IsName "FIX_POINT".toList := isName_of_check (by decide)

theorem isName_mean : IsName "mean".toList := isName_of_check (by decide)

theorem isName_scale : IsName "scale".toList := isName_of_check (by decide)

theorem writes_guard (f : String) : Writes f (f ++ "#ifndef MLP_PARAMS_BPF_H\n" ++
    "#define MLP_PARAMS_BPF_H\n\n") [.ifndef guardName.toList, .define guardName.toList []] := by
  have hifndef : "#ifndef MLP_PARAMS_BPF_H\n".toList = ifndefText guardName.toList := by decide
  have hdefine : "#define MLP_PARAMS_BPF_H\n\n".toList = guardText guardName.toList ++ ['\n'] := by
    decide
  have hfirst : Reads "#ifndef MLP_PARAMS_BPF_H\n".toList [.ifndef guardName.toList] := by
    rw [hifndef]
    exact reads_ifndefText isName_guardName
  have hsecond : Reads "#define MLP_PARAMS_BPF_H\n\n".toList [.define guardName.toList []] := by
    rw [hdefine]
    exact (reads_guardText isName_guardName).append reads_newline
  exact (writes_append f hfirst).trans (writes_append _ hsecond)

theorem FixPointArg.isName (fixPoint : FixPointArg) : IsName fixPoint.digits :=
  ⟨fixPoint.ne_nil, fun c hc ↦ wordChar_of_isDigit (fixPoint.isDigit c hc)⟩

theorem writes_fixPoint (f : String) (fixPoint : FixPointArg) :
    Writes f (f ++ "#define FIX_POINT " ++ String.ofList fixPoint.digits ++ "\n\n")
      [.define "FIX_POINT".toList [.word fixPoint.digits]] := by
  have hpieces : "#define FIX_POINT ".toList =
      "#define ".toList ++ ("FIX_POINT".toList ++ [' ']) := by decide
  have hline := (reads_defineText isName_fixPoint fixPoint.isName).append reads_newline
  refine ⟨_, ?_, hline⟩
  unfold defineText
  simp only [String.toList_append, String.toList_ofList, hpieces, List.append_assoc]
  rfl

theorem writes_endif (f : String) : Writes f (f ++ "\n#endif\n") [.endif] := by
  have hpieces : "\n#endif\n".toList = ['\n'] ++ endifText := by decide
  have hend : Reads "\n#endif\n".toList [.endif] := by
    rw [hpieces]
    exact reads_newline.append reads_endifText
  exact writes_append f hend

/-- What is found in the file is exactly what was written. -/
theorem entries_mlpParamsHeader (conversions : Conversions) (fixPoint : FixPointArg)
    (stateDict : List Tensor) (mean scale : List ℚ) :
    entries (mlpParamsHeader conversions fixPoint stateDict mean scale).toList =
      .ifndef guardName.toList :: .define guardName.toList [] ::
        bodyEntries conversions fixPoint stateDict mean scale ++ [.endif] := by
  have hall := (((((writes_guard "").trans (writes_fixPoint _ fixPoint)).trans
    (Writes.foldl (writes_writeTensor conversions fixPoint.int) _ stateDict.zipIdx)).trans
      (writes_writeStats _ (printedStats conversions mean) isName_mean)).trans
        (writes_writeStats _ (printedStats conversions scale) isName_scale)).trans (writes_endif _)
  rw [mlpParamsHeader, hall.entries_eq]
  simp only [bodyEntries, List.append_assoc, List.cons_append, List.nil_append]

/-! ## What a C file that includes it knows -/

/-- Nothing is defined before the first include. -/
def nothingKnown : Known := ⟨[], []⟩

/-- What is known to a C file after `#include "mlp_params.bpf.h"`. -/
def knownParams (conversions : Conversions) (fixPoint : FixPointArg) (stateDict : List Tensor)
    (mean scale : List ℚ) : Known :=
  included nothingKnown (mlpParamsHeader conversions fixPoint stateDict mean scale).toList

def dimDefinition (i n : ℕ) : List Char × List Token :=
  ((dimName i).toList, [.word (Nat.toDigits 10 n)])

def tensorDefinitions : Tensor × ℕ → List (List Char × List Token)
  | (tensor, i) =>
    (if i = 0 then [dimDefinition 0 tensor.cols] else []) ++ [dimDefinition (i + 1) tensor.rows]

def tensorArray (conversions : Conversions) (fixPoint : ℕ) : Tensor × ℕ → IntArray
  | (tensor, i) => int32Array (layerName i) (printedParams conversions fixPoint tensor.params)

section

variable (conversions : Conversions)

theorem filterMap_definition?_tensorEntries (fixPoint : ℕ) (entry : Tensor × ℕ) :
    (tensorEntries conversions fixPoint entry).filterMap Entry.definition? =
      tensorDefinitions entry := by
  obtain ⟨tensor, i⟩ := entry
  cases i with
  | zero => rfl
  | succ i => rfl

theorem filterMap_array?_tensorEntries (fixPoint : ℕ) (entry : Tensor × ℕ) :
    (tensorEntries conversions fixPoint entry).filterMap Entry.array? =
      [tensorArray conversions fixPoint entry] := by
  obtain ⟨tensor, i⟩ := entry
  cases i with
  | zero => rfl
  | succ i => rfl

theorem isPlain_tensorEntries (fixPoint : ℕ) (entry : Tensor × ℕ) :
    ∀ line ∈ tensorEntries conversions fixPoint entry, line.isPlain = true := by
  obtain ⟨tensor, i⟩ := entry
  cases i with
  | zero => simp [tensorEntries, dimEntry, Entry.isPlain]
  | succ i => simp [tensorEntries, dimEntry, Entry.isPlain]

variable (fixPoint : FixPointArg) (stateDict : List Tensor) (mean scale : List ℚ)

theorem isPlain_bodyEntries :
    ∀ line ∈ bodyEntries conversions fixPoint stateDict mean scale, line.isPlain = true := by
  have htensors : ∀ line ∈ stateDict.zipIdx.flatMap (tensorEntries conversions fixPoint.int),
      line.isPlain = true := by
    intro line hline
    obtain ⟨entry, _, hmem⟩ := List.mem_flatMap.mp hline
    exact isPlain_tensorEntries conversions fixPoint.int entry line hmem
  have hone (line : Entry) (h : line.isPlain = true) : ∀ other ∈ [line], other.isPlain = true :=
    List.forall_mem_singleton.mpr h
  exact List.forall_mem_append.mpr ⟨List.forall_mem_append.mpr
    ⟨List.forall_mem_append.mpr ⟨hone _ rfl, htensors⟩, hone _ rfl⟩, hone _ rfl⟩

theorem filterMap_definition?_bodyEntries :
    (bodyEntries conversions fixPoint stateDict mean scale).filterMap Entry.definition? =
      ("FIX_POINT".toList, [.word fixPoint.digits]) ::
        stateDict.zipIdx.flatMap tensorDefinitions := by
  have htensors : (stateDict.zipIdx.flatMap
      (tensorEntries conversions fixPoint.int)).filterMap Entry.definition? =
        stateDict.zipIdx.flatMap tensorDefinitions := by
    rw [List.filterMap_flatMap]
    exact congrArg (List.flatMap · _)
      (funext (filterMap_definition?_tensorEntries conversions fixPoint.int))
  rw [bodyEntries, List.filterMap_append, List.filterMap_append, List.filterMap_append, htensors]
  exact (List.append_nil _).trans (List.append_nil _)

theorem filterMap_array?_bodyEntries :
    (bodyEntries conversions fixPoint stateDict mean scale).filterMap Entry.array? =
      stateDict.zipIdx.map (tensorArray conversions fixPoint.int) ++
        [int64Array "mean" (printedStats conversions mean),
          int64Array "scale" (printedStats conversions scale)] := by
  have htensors : (stateDict.zipIdx.flatMap
      (tensorEntries conversions fixPoint.int)).filterMap Entry.array? =
        stateDict.zipIdx.map (tensorArray conversions fixPoint.int) := by
    rw [List.filterMap_flatMap, List.map_eq_flatMap]
    exact congrArg (List.flatMap · _)
      (funext (filterMap_array?_tensorEntries conversions fixPoint.int))
  rw [bodyEntries, List.filterMap_append, List.filterMap_append, List.filterMap_append, htensors,
    List.append_assoc]
  rfl

theorem knownParams_eq :
    knownParams conversions fixPoint stateDict mean scale =
      ⟨(guardName.toList, []) :: ("FIX_POINT".toList, [.word fixPoint.digits]) ::
          stateDict.zipIdx.flatMap tensorDefinitions,
        stateDict.zipIdx.map (tensorArray conversions fixPoint.int) ++
          [int64Array "mean" (printedStats conversions mean),
            int64Array "scale" (printedStats conversions scale)]⟩ := by
  have hnew : nothingKnown.isDefined guardName.toList = false := rfl
  have hentries := entries_mlpParamsHeader conversions fixPoint stateDict mean scale
  have hplain := isPlain_bodyEntries conversions fixPoint stateDict mean scale
  rw [knownParams, included_guarded hentries hplain hnew, filterMap_definition?_bodyEntries,
    filterMap_array?_bodyEntries]
  rfl

end

/-! ### The names are different -/

theorem toList_dimName (i : ℕ) : (dimName i).toList = 'N' :: Nat.toDigits 10 i := by
  rw [dimName, String.toList_append, toList_toString_nat]
  rfl

theorem toList_layerName (i : ℕ) :
    (layerName i).toList = 'l' :: ("ayer_".toList ++ Nat.toDigits 10 i ++ "_weight".toList) := by
  have hfirst : "layer_".toList = 'l' :: "ayer_".toList := by decide
  rw [layerName, String.toList_append, String.toList_append, toList_toString_nat, hfirst]
  rfl

theorem toList_dimName_injective : Function.Injective fun i ↦ (dimName i).toList := by
  intro i j h
  simp only [toList_dimName] at h
  exact toDigits_injective (List.cons.inj h).2

theorem toList_layerName_injective : Function.Injective fun i ↦ (layerName i).toList := by
  intro i j h
  simp only [toList_layerName] at h
  have hdigits := List.append_cancel_right (List.cons.inj h).2
  exact toDigits_injective (List.append_cancel_left hdigits)

theorem map_name_arrays (conversions : Conversions) (fixPoint : ℕ) (stateDict : List Tensor) :
    (stateDict.zipIdx.map (tensorArray conversions fixPoint)).map IntArray.name =
      (List.range' 0 stateDict.length).map fun i ↦ (layerName i).toList := by
  rw [← List.zipIdx_map_snd 0 stateDict, List.map_map, List.map_map]
  rfl

theorem nodup_arrayNames (conversions : Conversions) (fixPoint : FixPointArg)
    (stateDict : List Tensor) (mean scale : List ℚ) :
    ((knownParams conversions fixPoint stateDict mean scale).arrays.map
      IntArray.name).Nodup := by
  have hlayer {name : List Char} (hname : name.head? ≠ some 'l') :
      name ∉ (List.range' 0 stateDict.length).map fun i ↦ (layerName i).toList := by
    intro hmem
    obtain ⟨i, _, heq⟩ := List.mem_map.mp hmem
    apply hname
    rw [← heq, toList_layerName, List.head?_cons]
  have hindices : (List.range' 0 stateDict.length).Nodup := List.nodup_range' 1
  have hlayers := hindices.map toList_layerName_injective
  have hothers : ["mean".toList, "scale".toList].Nodup := by decide
  rw [knownParams_eq, List.map_append, map_name_arrays]
  apply hlayers.append hothers
  apply List.disjoint_cons_right.mpr
  exact ⟨hlayer (by decide), List.disjoint_singleton.mpr (hlayer (by decide))⟩

/-- From the second tensor on there is one definition for each of them. -/
theorem map_fst_tensorDefinitions_succ (stateDict : List Tensor) (k : ℕ) :
    ((stateDict.zipIdx (k + 1)).flatMap tensorDefinitions).map Prod.fst =
      (List.range' (k + 2) stateDict.length).map fun i ↦ (dimName i).toList := by
  induction stateDict generalizing k with
  | nil => rfl
  | cons tensor stateDict ih =>
    have hone : tensorDefinitions (tensor, k + 1) = [dimDefinition (k + 2) tensor.rows] := rfl
    rw [List.zipIdx_cons, List.flatMap_cons, hone, List.map_append, ih, List.length_cons,
      List.range'_succ, List.map_cons]
    rfl

theorem map_fst_tensorDefinitions (tensor : Tensor) (stateDict : List Tensor) :
    ((tensor :: stateDict).zipIdx.flatMap tensorDefinitions).map Prod.fst =
      (List.range' 0 (stateDict.length + 2)).map fun i ↦ (dimName i).toList := by
  have htwo : tensorDefinitions (tensor, 0) =
      [dimDefinition 0 tensor.cols, dimDefinition 1 tensor.rows] := rfl
  rw [List.zipIdx_cons, List.flatMap_cons, htwo, List.map_append, map_fst_tensorDefinitions_succ,
    List.range'_succ, List.range'_succ]
  rfl

theorem dimNames (stateDict : List Tensor) :
    ∃ n, (stateDict.zipIdx.flatMap tensorDefinitions).map Prod.fst =
      (List.range' 0 n).map fun i ↦ (dimName i).toList := by
  cases stateDict with
  | nil => exact ⟨0, rfl⟩
  | cons tensor stateDict => exact ⟨_, map_fst_tensorDefinitions tensor stateDict⟩

theorem nodup_definedNames (conversions : Conversions) (fixPoint : FixPointArg)
    (stateDict : List Tensor) (mean scale : List ℚ) :
    ((knownParams conversions fixPoint stateDict mean scale).defined.map Prod.fst).Nodup := by
  obtain ⟨n, hnames⟩ := dimNames stateDict
  have hdim {name : List Char} (hname : name.head? ≠ some 'N') :
      name ∉ (List.range' 0 n).map fun i ↦ (dimName i).toList := by
    intro hmem
    obtain ⟨i, _, heq⟩ := List.mem_map.mp hmem
    apply hname
    rw [← heq, toList_dimName, List.head?_cons]
  have hindices : (List.range' 0 n).Nodup := List.nodup_range' 1
  have hdims := hindices.map toList_dimName_injective
  have hfixPoint : "FIX_POINT".toList ∉ (List.range' 0 n).map fun i ↦ (dimName i).toList :=
    hdim (by decide)
  have hguard : guardName.toList ∉ "FIX_POINT".toList ::
      (List.range' 0 n).map fun i ↦ (dimName i).toList :=
    List.not_mem_cons_of_ne_of_not_mem (by decide) (hdim (by decide))
  rw [knownParams_eq, List.map_cons, List.map_cons, hnames]
  exact List.nodup_cons.mpr ⟨hguard, List.nodup_cons.mpr ⟨hfixPoint, hdims⟩⟩

/-! ### What is known -/

section

variable (conversions : Conversions) (fixPoint : FixPointArg) (stateDict : List Tensor)
  (mean scale : List ℚ)

theorem array?_layerName {i : ℕ} {tensor : Tensor} (h : stateDict[i]? = some tensor) :
    (knownParams conversions fixPoint stateDict mean scale).array? (layerName i).toList =
      some (int32Array (layerName i) (printedParams conversions fixPoint.int tensor.params)) := by
  have hmem : tensorArray conversions fixPoint.int (tensor, i) ∈
      (knownParams conversions fixPoint stateDict mean scale).arrays := by
    rw [knownParams_eq]
    apply List.mem_append_left
    exact List.mem_map_of_mem (List.mk_mem_zipIdx_iff_getElem?.mpr h)
  exact Known.array?_of_mem (nodup_arrayNames conversions fixPoint stateDict mean scale) hmem rfl

theorem array?_mean :
    (knownParams conversions fixPoint stateDict mean scale).array? "mean".toList =
      some (int64Array "mean" (printedStats conversions mean)) := by
  have hmem : int64Array "mean" (printedStats conversions mean) ∈
      (knownParams conversions fixPoint stateDict mean scale).arrays := by
    rw [knownParams_eq]
    exact List.mem_append_right _ List.mem_cons_self
  exact Known.array?_of_mem (nodup_arrayNames conversions fixPoint stateDict mean scale) hmem rfl

theorem array?_scale :
    (knownParams conversions fixPoint stateDict mean scale).array? "scale".toList =
      some (int64Array "scale" (printedStats conversions scale)) := by
  have hmem : int64Array "scale" (printedStats conversions scale) ∈
      (knownParams conversions fixPoint stateDict mean scale).arrays := by
    rw [knownParams_eq]
    exact List.mem_append_right _ (List.mem_cons_of_mem _ List.mem_cons_self)
  exact Known.array?_of_mem (nodup_arrayNames conversions fixPoint stateDict mean scale) hmem rfl

/-- A C file reads the digits of the argument as a constant of its own. -/
theorem value?_fixPoint :
    (knownParams conversions fixPoint stateDict mean scale).value? "FIX_POINT".toList =
      constant fixPoint.digits := by
  apply Known.value?_of_mem (nodup_definedNames conversions fixPoint stateDict mean scale)
  rw [knownParams_eq]
  exact List.mem_cons_of_mem _ List.mem_cons_self

theorem value?_of_mem {name : List Char} {value : ℕ}
    (hmem : (name, [.word (Nat.toDigits 10 value)]) ∈
      stateDict.zipIdx.flatMap tensorDefinitions) :
    (knownParams conversions fixPoint stateDict mean scale).value? name = some value := by
  rw [← constant_toDigits value]
  apply Known.value?_of_mem (nodup_definedNames conversions fixPoint stateDict mean scale)
  rw [knownParams_eq]
  exact List.mem_cons_of_mem _ (List.mem_cons_of_mem _ hmem)

theorem value?_rows {i : ℕ} {tensor : Tensor} (h : stateDict[i]? = some tensor) :
    (knownParams conversions fixPoint stateDict mean scale).value? (dimName (i + 1)).toList =
      some tensor.rows := by
  apply value?_of_mem
  apply List.mem_flatMap.mpr
  exact ⟨(tensor, i), List.mk_mem_zipIdx_iff_getElem?.mpr h,
    List.mem_append_right _ List.mem_cons_self⟩

theorem value?_cols {tensor : Tensor} (h : stateDict[0]? = some tensor) :
    (knownParams conversions fixPoint stateDict mean scale).value? (dimName 0).toList =
      some tensor.cols := by
  apply value?_of_mem
  apply List.mem_flatMap.mpr
  exact ⟨(tensor, 0), List.mk_mem_zipIdx_iff_getElem?.mpr h, List.mem_cons_self⟩

/-- A second include changes nothing. -/
theorem included_knownParams :
    included (knownParams conversions fixPoint stateDict mean scale)
      (mlpParamsHeader conversions fixPoint stateDict mean scale).toList =
        knownParams conversions fixPoint stateDict mean scale := by
  have hdefined :
      (knownParams conversions fixPoint stateDict mean scale).isDefined guardName.toList =
        true := by
    rw [knownParams_eq]
    rfl
  exact included_again (entries_mlpParamsHeader conversions fixPoint stateDict mean scale)
    (isPlain_bodyEntries conversions fixPoint stateDict mean scale) hdefined

end

/-- Without a leading zero C reads the fixed point as the script does. -/
theorem FixPointArg.constant_digits {fixPoint : FixPointArg}
    (h : fixPoint.digits.head? ≠ some '0') :
    constant fixPoint.digits = some fixPoint.int := by
  have hread : ¬ (fixPoint.digits = [] ∨ ¬ fixPoint.digits.all Char.isDigit = true) := by
    rintro (hnil | hother)
    · exact fixPoint.ne_nil hnil
    · exact hother (List.all_eq_true.mpr fixPoint.isDigit)
  rw [constant, if_neg hread, if_pos h, FixPointArg.int]

/-- Whatever was trained and however many layers it has: if the rounded parameters are values of
the types that they are converted to, a C file that includes the written header finds the fixed
point, the numbers of neurons and every array, each with exactly the integers that were rounded; one
include is as good as two.  A fixed point with a leading zero is an octal constant to the C file. -/
theorem header_roundTrip (conversions : Conversions) (fixPoint : FixPointArg)
    {stateDict : List Tensor} {mean scale : List ℚ}
    (hparams : ∀ tensor ∈ stateDict, ∀ i j,
      Fits 32 (roundHalfEven (tensor.params i j * 2 ^ fixPoint.int)))
    (hmean : ∀ value ∈ mean, Fits 64 (roundHalfEven value))
    (hscale : ∀ value ∈ scale, Fits 64 (roundHalfEven value)) :
    let known := knownParams conversions fixPoint stateDict mean scale
    known.value? "FIX_POINT".toList = constant fixPoint.digits ∧
      (fixPoint.digits.head? ≠ some '0' →
        known.value? "FIX_POINT".toList = some fixPoint.int) ∧
      (∀ tensor, stateDict[0]? = some tensor →
        known.value? (dimName 0).toList = some tensor.cols) ∧
      (∀ i tensor, stateDict[i]? = some tensor →
        known.value? (dimName (i + 1)).toList = some tensor.rows ∧
        known.array? (layerName i).toList =
          some ⟨"int32_t".toList, (layerName i).toList, tensor.rows * tensor.cols,
            writtenParams fixPoint.int tensor.params⟩) ∧
      known.array? "mean".toList =
        some ⟨"int64_t".toList, "mean".toList, mean.length, mean.map roundHalfEven⟩ ∧
      known.array? "scale".toList =
        some ⟨"int64_t".toList, "scale".toList, scale.length, scale.map roundHalfEven⟩ ∧
      included known (mlpParamsHeader conversions fixPoint stateDict mean scale).toList =
        known := by
  intro known
  have hfixPoint : known.value? "FIX_POINT".toList = constant fixPoint.digits :=
    value?_fixPoint ..
  have hstat (values : List ℚ) : (values.map roundHalfEven).length = values.length :=
    List.length_map _
  refine ⟨hfixPoint, fun h ↦ hfixPoint.trans (FixPointArg.constant_digits h),
    fun _ h ↦ value?_cols _ _ _ _ _ h, ?_, ?_, ?_, included_knownParams ..⟩
  · intro i tensor h
    refine ⟨value?_rows _ _ _ _ _ h, ?_⟩
    rw [array?_layerName _ _ _ _ _ h,
      printedParams_eq conversions (hparams tensor (List.mem_of_getElem? h)),
      int32Array_eq (length_writtenParams _ _)]
  · rw [array?_mean, printedStats_eq conversions hmean, int64Array_eq (hstat mean)]
  · rw [array?_scale, printedStats_eq conversions hscale, int64Array_eq (hstat scale)]

/-- The conversions as they are if they keep the low bits. -/
def wrapping : Conversions where
  int := BitVec.ofInt 32
  astypeInt64 := BitVec.ofInt 64
  toInt_int := fun _ h ↦ toInt_ofInt_of_fits (by decide) h
  toInt_astypeInt64 := fun _ h ↦ toInt_ofInt_of_fits (by decide) h

/-- The argument `16`. -/
def sixteen : FixPointArg where
  digits := ['1', '6']
  ne_nil := by decide
  isDigit := List.all_eq_true.mp (by decide)

/-- One neuron with two inputs. -/
theorem header_roundTrip_small :
    let tensor : Tensor := ⟨1, 2, fun _ j ↦ if j = 0 then 1 / 2 else -1⟩
    let known := knownParams wrapping sixteen [tensor] [3 / 2, 9] [4, 25 / 2]
    known.value? "FIX_POINT".toList = some 16 ∧
      known.array? (layerName 0).toList =
        some ⟨"int32_t".toList, (layerName 0).toList, 2, [32768, -65536]⟩ ∧
      known.array? "scale".toList =
        some ⟨"int64_t".toList, "scale".toList, 2, [4, 12]⟩ := by
  intro tensor known
  have hparams : ∀ other ∈ [tensor], ∀ i j,
      Fits 32 (roundHalfEven (other.params i j * 2 ^ sixteen.int)) := by
    rintro other hother
    rw [List.mem_singleton.mp hother]
    decide +kernel
  have hmean : ∀ value ∈ [(3 : ℚ) / 2, 9], Fits 64 (roundHalfEven value) := by decide +kernel
  have hscale : ∀ value ∈ [(4 : ℚ), 25 / 2], Fits 64 (roundHalfEven value) := by decide +kernel
  have hwritten : writtenParams sixteen.int tensor.params = [32768, -65536] := by decide +kernel
  have hrounded : [(4 : ℚ), 25 / 2].map roundHalfEven = [4, 12] := by decide +kernel
  have hplain : sixteen.digits.head? ≠ some '0' := by decide
  have hint : sixteen.int = 16 := by decide
  obtain ⟨-, hfixPoint, -, hlayers, -, hlast, -⟩ :=
    header_roundTrip wrapping sixteen hparams hmean hscale
  have hlayer := (hlayers 0 tensor rfl).2
  rw [hwritten] at hlayer
  rw [hrounded] at hlast
  exact ⟨(hfixPoint hplain).trans (congrArg some hint), hlayer, hlast⟩

end NNeBPF.Mlp

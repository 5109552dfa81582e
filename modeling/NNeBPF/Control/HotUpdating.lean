import NNeBPF.Control.Loader

/-!
# Hot updates

`main` of `hot_updating.c`: it looks `nn_idx[0]` up, stores a network into the other slot of
`nn_parameters` and then selects this slot.  Each of the three map calls is one atomic step; what
happens between them is up to the other programs that use the two maps.
-/

namespace NNeBPF

/-- The three map calls of `main`. -/
inductive HotCall
  | lookupNnIdx
  | updateNnParameters
  | updateNnIdx

/-- Where a run stands: the call that it makes next, and the index that its lookup returned. -/
inductive HotPc
  | lookup
  | updateParameters (nnIdx : S32)
  | updateIdx (nnIdx : S32)
  | done
deriving DecidableEq

/-- The index that a run past its lookup, and before its end, has read. -/
def HotPc.held : HotPc → Option S32
  | .lookup | .done => none
  | .updateParameters nnIdx | .updateIdx nnIdx => some nnIdx

/-- `int new_nn_idx = (nn_idx + 1) % 2`. -/
def newNnIdx (nnIdx : S32) : S32 := (nnIdx + 1).srem 2

/-- `bpf_map_update_elem(nn_parameters_fd, &idx, &net, BPF_ANY)`. -/
def NnMaps.setParameters (nn : NnMaps) (idx : S32) (net : Net) : NnMaps :=
  { nn with nnParameters := BpfMap.ArrayMap.update nn.nnParameters idx net }

/-- The next call of a run that installs `net`.  A failed call is only reported: the variable
`nn_idx` keeps its initial 0, or the map stays as it is, and the run goes on. -/
def hotStep (fails : HotCall → Bool) (net : Net) (pc : HotPc) (nn : NnMaps) : HotPc × NnMaps :=
  match pc with
  | .lookup =>
    (.updateParameters (if fails .lookupNnIdx then 0 else nn.activeIdx), nn)
  | .updateParameters nnIdx =>
    (.updateIdx nnIdx,
      if fails .updateNnParameters then nn else nn.setParameters (newNnIdx nnIdx) net)
  | .updateIdx nnIdx => (.done, if fails .updateNnIdx then nn else nn.setIdx (newNnIdx nnIdx))
  | .done => (.done, nn)

/-- No call fails. -/
def allSucceed : HotCall → Bool := fun _ ↦ false

/-- A complete run that nothing interrupts. -/
def hotUpdate (net : Net) (nn : NnMaps) : NnMaps :=
  let (pc, nn) := hotStep allSucceed net .lookup nn
  let (pc, nn) := hotStep allSucceed net pc nn
  (hotStep allSucceed net pc nn).2

/-! ## Indices -/

/-- An index that selects one of the two slots. -/
def ValidIdx (idx : S32) : Prop := idx = 0 ∨ idx = 1

instance (idx : S32) : Decidable (ValidIdx idx) := inferInstanceAs (Decidable (_ ∨ _))

theorem ValidIdx.lt {idx : S32} (h : ValidIdx idx) : idx.toNat < 2 := by
  rcases h with rfl | rfl <;> decide

theorem validIdx_newNnIdx {idx : S32} (h : ValidIdx idx) : ValidIdx (newNnIdx idx) := by
  rcases h with rfl | rfl <;> decide

/-- A call, failed or not, turns valid indices into valid indices; a failed lookup gives 0. -/
theorem validIdx_hotStep (fails : HotCall → Bool) (net : Net) {pc : HotPc} {nn : NnMaps}
    (hactive : ValidIdx nn.activeIdx) (hheld : ∀ nnIdx, pc.held = some nnIdx → ValidIdx nnIdx) :
    ValidIdx (hotStep fails net pc nn).2.activeIdx ∧
      ∀ nnIdx, (hotStep fails net pc nn).1.held = some nnIdx → ValidIdx nnIdx := by
  cases pc with
  | lookup =>
    refine ⟨hactive, ?_⟩
    intro nnIdx heq
    cases heq
    cases fails .lookupNnIdx with
    | true => exact Or.inl rfl
    | false => exact hactive
  | updateParameters idx =>
    refine ⟨?_, fun nnIdx heq ↦ hheld nnIdx heq⟩
    simp only [hotStep]
    cases fails .updateNnParameters with
    | true => exact hactive
    | false => exact hactive
  | updateIdx idx =>
    refine ⟨?_, fun nnIdx heq ↦ nomatch heq⟩
    simp only [hotStep]
    cases fails .updateNnIdx with
    | true => exact hactive
    | false =>
      rw [if_neg Bool.false_ne_true, NnMaps.activeIdx_setIdx]
      exact validIdx_newNnIdx (hheld idx rfl)
  | done => exact ⟨hactive, fun nnIdx heq ↦ nomatch heq⟩

/-- The new index is the other one of the two. -/
theorem newNnIdx_eq_iff {idx slot : S32} (hidx : ValidIdx idx) (hslot : ValidIdx slot) :
    newNnIdx idx = slot ↔ idx ≠ slot := by
  rcases hidx with rfl | rfl <;> rcases hslot with rfl | rfl <;> decide

/-! ## What a run does to the maps -/

section

variable (nn : NnMaps) (net : Net)

@[simp]
theorem NnMaps.activeIdx_setParameters (idx : S32) :
    (nn.setParameters idx net).activeIdx = nn.activeIdx := rfl

theorem NnMaps.lookup_setParameters_self {idx : S32} (h : idx.toNat < 2) :
    BpfMap.ArrayMap.lookup (nn.setParameters idx net).nnParameters idx = some net :=
  BpfMap.ArrayMap.lookup_update_self nn.nnParameters h net

theorem NnMaps.lookup_setParameters_of_ne {idx slot : S32} (h : slot ≠ idx) :
    BpfMap.ArrayMap.lookup (nn.setParameters idx net).nnParameters slot =
      BpfMap.ArrayMap.lookup nn.nnParameters slot :=
  BpfMap.ArrayMap.lookup_update_of_ne nn.nnParameters h net

theorem hotUpdate_eq :
    hotUpdate net nn = (nn.setParameters (newNnIdx nn.activeIdx) net).setIdx
      (newNnIdx nn.activeIdx) := rfl

@[simp]
theorem activeIdx_hotUpdate : (hotUpdate net nn).activeIdx = newNnIdx nn.activeIdx := by
  rw [hotUpdate_eq, NnMaps.activeIdx_setIdx]

/-- A complete run leaves the network that it installs in the active slot. -/
theorem lookup_hotUpdate_activeIdx {nn : NnMaps} (h : ValidIdx nn.activeIdx) :
    BpfMap.ArrayMap.lookup (hotUpdate net nn).nnParameters (hotUpdate net nn).activeIdx =
      some net := by
  rw [activeIdx_hotUpdate, hotUpdate_eq, NnMaps.nnParameters_setIdx]
  exact NnMaps.lookup_setParameters_self _ _ (validIdx_newNnIdx h).lt

/-- The slot that was active before keeps its network. -/
theorem lookup_hotUpdate_of_active {nn : NnMaps} (h : ValidIdx nn.activeIdx) :
    BpfMap.ArrayMap.lookup (hotUpdate net nn).nnParameters nn.activeIdx =
      BpfMap.ArrayMap.lookup nn.nnParameters nn.activeIdx := by
  have hother : nn.activeIdx ≠ newNnIdx nn.activeIdx :=
    fun heq ↦ (newNnIdx_eq_iff h h).mp heq.symm rfl
  rw [hotUpdate_eq, NnMaps.nnParameters_setIdx]
  exact NnMaps.lookup_setParameters_of_ne _ _ hother

end

end NNeBPF

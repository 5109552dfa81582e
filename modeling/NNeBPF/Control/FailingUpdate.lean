import NNeBPF.Control.HotUpdating

/-!
# Hot updates with failing calls

`main` of `hot_updating.c` from its two `bpf_obj_get` calls on.  It prints the error of each call
and goes on: after a failed lookup with index 0, after a failed store by selecting the slot all the
same. So a failure is harmless only if the index is not flipped either, or if nothing was
overwritten.
-/

namespace NNeBPF

open Mlp

/-- The calls of `main` that can fail. -/
inductive MainCall
  | objGetNnParameters
  | objGetNnIdx
  | map (call : HotCall)

/-- The map calls that fail: those in `fails`, and those on a descriptor that was not opened. -/
def mapFails (fails : MainCall → Bool) : HotCall → Bool
  | .lookupNnIdx => fails .objGetNnIdx || fails (.map .lookupNnIdx)
  | .updateNnParameters => fails .objGetNnParameters || fails (.map .updateNnParameters)
  | .updateNnIdx => fails .objGetNnIdx || fails (.map .updateNnIdx)

/-- The maps after `main`, with the calls in `fails` failing. -/
def hotMain (fails : MainCall → Bool) (nn : NnMaps) : NnMaps :=
  let (pc, nn) := hotStep (mapFails fails) shippedNet .lookup nn
  let (pc, nn) := hotStep (mapFails fails) shippedNet pc nn
  (hotStep (mapFails fails) shippedNet pc nn).2

/-- What a run promises: if a call fails, the index and the selected network stay; otherwise the
shipped network is selected, and the network that was selected before is still in its slot. -/
def KeepsClassifier (fails : MainCall → Bool) (nn : NnMaps) : Prop :=
  ((∃ call, fails call = true) →
    (hotMain fails nn).activeIdx = nn.activeIdx ∧
      BpfMap.ArrayMap.lookup (hotMain fails nn).nnParameters nn.activeIdx =
        BpfMap.ArrayMap.lookup nn.nnParameters nn.activeIdx) ∧
  ((∀ call, fails call = false) →
    BpfMap.ArrayMap.lookup (hotMain fails nn).nnParameters (hotMain fails nn).activeIdx =
        some shippedNet ∧
      BpfMap.ArrayMap.lookup (hotMain fails nn).nnParameters nn.activeIdx =
        BpfMap.ArrayMap.lookup nn.nnParameters nn.activeIdx)

/-- The failures that do no harm to a run that begins with the maps `nn`. -/
def HarmlessFailures (fails : MainCall → Bool) (nn : NnMaps) : Prop :=
  if mapFails fails .lookupNnIdx = true ∧ nn.activeIdx = 1 then
    mapFails fails .updateNnParameters = true ∨
      BpfMap.ArrayMap.lookup nn.nnParameters 1 = some shippedNet
  else mapFails fails .updateNnIdx = true

section

variable (fails : MainCall → Bool) (nn : NnMaps)

/-- The slot that `main` computes. -/
def targetIdx : S32 := newNnIdx (if mapFails fails .lookupNnIdx then 0 else nn.activeIdx)

theorem activeIdx_hotMain :
    (hotMain fails nn).activeIdx =
      if mapFails fails .updateNnIdx then nn.activeIdx else targetIdx fails nn := by
  simp only [hotMain, hotStep, targetIdx]
  cases mapFails fails .updateNnIdx <;> cases mapFails fails .updateNnParameters <;> simp

theorem nnParameters_hotMain :
    (hotMain fails nn).nnParameters =
      if mapFails fails .updateNnParameters then nn.nnParameters
      else (nn.setParameters (targetIdx fails nn) shippedNet).nnParameters := by
  simp only [hotMain, hotStep, targetIdx]
  cases mapFails fails .updateNnIdx <;> cases mapFails fails .updateNnParameters <;> simp

variable {fails nn}

theorem mapFails_eq_false (h : ∀ call, fails call = false) (call : HotCall) :
    mapFails fails call = false := by
  cases call <;> simp [mapFails, h]

/-- After a successful lookup `main` aims at the other slot. -/
theorem targetIdx_ne (hidx : ValidIdx nn.activeIdx)
    (haim : ¬ (mapFails fails .lookupNnIdx = true ∧ nn.activeIdx = 1)) :
    targetIdx fails nn ≠ nn.activeIdx := by
  have hother {idx : S32} (hvalid : ValidIdx idx) : newNnIdx idx ≠ idx :=
    fun heq ↦ (newNnIdx_eq_iff hvalid hvalid).mp heq rfl
  unfold targetIdx
  cases hlookup : mapFails fails .lookupNnIdx with
  | false => exact hother hidx
  | true =>
    have hzero : nn.activeIdx = 0 := hidx.resolve_right fun hone ↦ haim ⟨hlookup, hone⟩
    rw [hzero]
    exact hother (Or.inl rfl)

/-- While `main` aims at another slot, the selected network stays where it is. -/
theorem lookup_hotMain_of_targetIdx_ne (hne : targetIdx fails nn ≠ nn.activeIdx) :
    BpfMap.ArrayMap.lookup (hotMain fails nn).nnParameters nn.activeIdx =
      BpfMap.ArrayMap.lookup nn.nnParameters nn.activeIdx := by
  rw [nnParameters_hotMain]
  split
  · rfl
  · exact NnMaps.lookup_setParameters_of_ne _ _ hne.symm

/-- After a failed lookup `main` aims at slot 1. -/
theorem lookup_hotMain_of_failed_lookup (hlookup : mapFails fails .lookupNnIdx = true) :
    BpfMap.ArrayMap.lookup (hotMain fails nn).nnParameters 1 =
      if mapFails fails .updateNnParameters then BpfMap.ArrayMap.lookup nn.nnParameters 1
      else some shippedNet := by
  have htarget : targetIdx fails nn = 1 := by
    rw [targetIdx, hlookup, if_pos rfl]
    decide
  rw [nnParameters_hotMain, htarget]
  split
  · rfl
  · exact NnMaps.lookup_setParameters_self _ _ (by decide)

end

/-- A run keeps its promise exactly if no call fails or the failures are harmless. -/
theorem keepsClassifier_iff (fails : MainCall → Bool) {nn : NnMaps}
    (hidx : ValidIdx nn.activeIdx) :
    KeepsClassifier fails nn ↔ (∀ call, fails call = false) ∨ HarmlessFailures fails nn := by
  by_cases hnone : ∀ call, fails call = false
  · have hmap := mapFails_eq_false hnone
    have hfails : ¬ ∃ call, fails call = true := by simp [hnone]
    have hne : targetIdx fails nn ≠ nn.activeIdx := targetIdx_ne hidx (by simp [hmap])
    refine iff_of_true ⟨fun h ↦ absurd h hfails, fun _ ↦ ⟨?_, ?_⟩⟩ (Or.inl hnone)
    · have htarget : (targetIdx fails nn).toNat < 2 := by
        rw [targetIdx, hmap]
        exact (validIdx_newNnIdx hidx).lt
      rw [activeIdx_hotMain, nnParameters_hotMain, hmap, hmap]
      exact NnMaps.lookup_setParameters_self _ _ htarget
    · exact lookup_hotMain_of_targetIdx_ne hne
  · have hsome : ∃ call, fails call = true := by simpa using hnone
    have hpromise : KeepsClassifier fails nn ↔
        (hotMain fails nn).activeIdx = nn.activeIdx ∧
          BpfMap.ArrayMap.lookup (hotMain fails nn).nnParameters nn.activeIdx =
            BpfMap.ArrayMap.lookup nn.nnParameters nn.activeIdx :=
      ⟨fun h ↦ h.1 hsome, fun h ↦ ⟨fun _ ↦ h, fun hall ↦ absurd hall hnone⟩⟩
    rw [hpromise, or_iff_right hnone]
    unfold HarmlessFailures
    split_ifs with haim
    · -- The index is written back as it was, but the selected slot is the one that is stored.
      obtain ⟨hlookup, hone⟩ := haim
      have hactive : (hotMain fails nn).activeIdx = nn.activeIdx := by
        rw [activeIdx_hotMain, targetIdx, hlookup, hone]
        split <;> decide
      rw [hone, lookup_hotMain_of_failed_lookup hlookup]
      cases mapFails fails .updateNnParameters with
      | true => simp [hactive, hone]
      | false =>
        have hactiveOne : (hotMain fails nn).activeIdx = 1 := hactive.trans hone
        simp [hactiveOne, eq_comm]
    · have hne : targetIdx fails nn ≠ nn.activeIdx := targetIdx_ne hidx haim
      have hslot := lookup_hotMain_of_targetIdx_ne hne
      rw [activeIdx_hotMain]
      cases mapFails fails .updateNnIdx with
      | true => simp [hslot]
      | false => simp [hne]

/-- Both updates fail while slot 1 is selected. -/
theorem keepsClassifier_of_failed_updates :
    let fails : MainCall → Bool
      | .map .updateNnParameters | .map .updateNnIdx => true
      | _ => false
    KeepsClassifier fails ⟨#v[Net.zero, shippedNet], #v[1]⟩ := by
  intro fails
  have hidx : ValidIdx (⟨#v[Net.zero, shippedNet], #v[1]⟩ : NnMaps).activeIdx := Or.inr rfl
  apply (keepsClassifier_iff fails hidx).mpr
  right
  rw [HarmlessFailures, if_neg (by decide)]
  rfl

/-- The store fails while slot 1 is selected: slot 0, which holds no network, is selected all the
same. -/
theorem not_keepsClassifier_of_failed_store :
    let fails : MainCall → Bool
      | .map .updateNnParameters => true
      | _ => false
    let nn : NnMaps := ⟨#v[Net.zero, shippedNet], #v[1]⟩
    (hotMain fails nn).activeIdx = 0 ∧ ¬ KeepsClassifier fails nn := by
  intro fails nn
  have hactive : (hotMain fails nn).activeIdx = 0 := by
    have hupdate : mapFails fails .updateNnIdx = false := rfl
    have hlookup : mapFails fails .lookupNnIdx = false := rfl
    have hother : newNnIdx 1 = 0 := by decide
    rw [activeIdx_hotMain, hupdate, targetIdx, hlookup, if_neg Bool.false_ne_true,
      if_neg Bool.false_ne_true]
    exact hother
  refine ⟨hactive, ?_⟩
  intro hkeeps
  have hkept := (hkeeps.1 ⟨.map .updateNnParameters, rfl⟩).1
  rw [hactive] at hkept
  cases hkept

end NNeBPF

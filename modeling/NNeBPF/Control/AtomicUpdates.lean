import NNeBPF.Control.WordUpdates
import NNeBPF.Multicore.Serial

/-!
# Updates that are as good as atomic

A deployment whose updates copy word by word is compared with one whose updates store the whole
network with their last word.  Where runs of `hot_updating` come one after another and no stage
looks up a slot that is being filled, every interleaving of the first is an interleaving of the
second with the first words of each copy left out: the entries, the programs that come next and the
printed lines are the same throughout, and so are the slots that are not being filled.
-/

namespace NNeBPF

open Mlp CellwiseCopy

/-! ## What an execution reads of the two maps -/

theorem onEntry_congr_body {frame : Frame} {flowMap : FlowMap}
    {body otherBody : FlowAttribute → EntryOutcome}
    (h : ∀ f attr, flowTuple frame = some f → flowMap.lookup f = some attr →
      body attr = otherBody attr) :
    onEntry frame flowMap body = onEntry frame flowMap otherBody := by
  unfold onEntry
  cases hframe : flowTuple frame with
  | none => rfl
  | some f =>
    cases hattr : flowMap.lookup f with
    | none => simp only [hattr]
    | some attr => simp only [hattr, h f attr hframe hattr]

/-- The stages that look up `nn_parameters`: those of the scaler and of the linear layers. -/
def XdpProgram.readsNet : XdpProgram → Bool
  | .xdpPreprocessing | .xdpInputLinear | .xdpHiddenLinear | .xdpOutputLinear => true
  | .xdpProg | .xdpInputRelu | .xdpHiddenRelu => false

/-- `xdp_prog` reads the index, and a stage with a lookup the slot that the entry of its flow
selects. -/
theorem exec_congr_maps {program : XdpProgram} {nn otherNn : NnMaps} {frame : Frame}
    {flowMap : FlowMap}
    (hidx : nn.nnIdx = otherNn.nnIdx)
    (hslot : program.readsNet → ∀ f attr, flowTuple frame = some f →
      flowMap.lookup f = some attr →
        BpfMap.ArrayMap.lookup nn.nnParameters attr.nnIdx =
          BpfMap.ArrayMap.lookup otherNn.nnParameters attr.nnIdx) (ktime : Ktime) :
    exec program ktime nn frame flowMap = exec program ktime otherNn frame flowMap := by
  have hnet (hstage : program.readsNet) (body : FlowAttribute → Net → EntryOutcome) :
      onEntry frame flowMap (fun attr ↦ onNet nn attr (body attr)) =
        onEntry frame flowMap (fun attr ↦ onNet otherNn attr (body attr)) := by
    apply onEntry_congr_body
    intro f attr hframe hattr
    rw [onNet, onNet, hslot hstage f attr hframe hattr]
  cases program with
  | xdpProg => simp only [exec, xdpProg, hidx]
  | xdpPreprocessing => exact hnet rfl _
  | xdpInputLinear => exact hnet rfl _
  | xdpInputRelu => rfl
  | xdpHiddenLinear => exact hnet rfl _
  | xdpHiddenRelu => rfl
  | xdpOutputLinear => exact hnet rfl _

namespace WordDeployment

open Deployment (Valid OneAtATime)

/-- The run copies into the slot. -/
def Filling (uid : ℕ) (slot : S32) (state : WordDeployment) : Prop :=
  ∃ nnIdx, state.deployment.runs uid = .updateParameters nnIdx ∧ newNnIdx nnIdx = slot

/-- The step is not one of a stage that looks a slot up while a run copies into it. -/
def ReadsWhole (frames : ℕ → Frame) (state : WordDeployment) (event : DeploymentEvent) : Prop :=
  ∀ packet ktime program, event = .xdp packet ktime →
    state.deployment.machine.next packet = some program → program.readsNet →
      ∀ f attr, flowTuple (frames packet) = some f →
        state.deployment.machine.flowMap.lookup f = some attr →
          ∀ uid, ¬ Filling uid attr.nnIdx state

/-- The lines that a step prints. -/
def printed (frames : ℕ → Frame) (deployment : Deployment) : DeploymentEvent → List Line
  | .xdp packet ktime =>
    Machine.turnLines frames deployment.machine ⟨packet, ktime, deployment.nn⟩
  | .hot _ => []

/-- All words but the last are left out. -/
def whole (state : WordDeployment) : DeploymentEvent → List DeploymentEvent
  | .xdp packet ktime => [.xdp packet ktime]
  | .hot uid =>
    match state.deployment.runs uid, state.remaining uid with
    | .updateParameters _, _ :: _ :: _ => []
    | _, _ => [.hot uid]

/-- The same machine and runs, and the slots differ only in the words that are already copied. -/
structure Refines (nets : ℕ → Net) (state : WordDeployment) (atomic : Deployment) : Prop where
  machine : atomic.machine = state.deployment.machine
  runs : atomic.runs = state.deployment.runs
  nnIdx : atomic.nn.nnIdx = state.deployment.nn.nnIdx
  valid : Valid state.deployment
  alone : ∀ uid other, (state.deployment.runs uid).held ≠ none →
    (state.deployment.runs other).held ≠ none → uid = other
  remaining : ∀ uid, state.deployment.runs uid = .lookup → state.remaining uid = netWords
  untouched : ∀ slot, (∀ uid, ¬ Filling uid slot state) →
    BpfMap.ArrayMap.lookup state.deployment.nn.nnParameters slot =
      BpfMap.ArrayMap.lookup atomic.nn.nnParameters slot
  copied : ∀ uid slot, Filling uid slot state → ∃ words net,
    netWords = words ++ state.remaining uid ∧
      BpfMap.ArrayMap.lookup atomic.nn.nnParameters slot = some net ∧
      BpfMap.ArrayMap.lookup state.deployment.nn.nnParameters slot =
        some (copyCells copyWord (nets uid) net words)

theorem Refines.of_initial {nets : ℕ → Net} {state : WordDeployment} (h : Initial state) :
    Refines nets state state.deployment where
  machine := rfl
  runs := rfl
  nnIdx := rfl
  valid := h.deployment.valid
  alone := by
    intro uid other hheld
    rw [h.deployment.runs uid] at hheld
    exact absurd rfl hheld
  remaining := fun uid _ ↦ h.remaining uid
  untouched := fun _ _ ↦ rfl
  copied := by
    rintro uid slot ⟨nnIdx, hpc, -⟩
    rw [h.deployment.runs uid] at hpc
    cases hpc

section

variable {frames : ℕ → Frame} {nets : ℕ → Net} {state : WordDeployment} {atomic : Deployment}

/-! ## Executions -/

theorem Refines.outcome_eq (h : Refines nets state atomic) {packet : ℕ} {ktime : Ktime}
    (hreads : ReadsWhole frames state (.xdp packet ktime)) :
    atomic.machine.outcome frames ⟨packet, ktime, atomic.nn⟩ =
      state.deployment.machine.outcome frames ⟨packet, ktime, state.deployment.nn⟩ := by
  rw [h.machine]
  unfold Machine.outcome
  cases hnext : state.deployment.machine.next packet with
  | none => rfl
  | some program =>
    have hslot : program.readsNet → ∀ f attr, flowTuple (frames packet) = some f →
        state.deployment.machine.flowMap.lookup f = some attr →
          BpfMap.ArrayMap.lookup atomic.nn.nnParameters attr.nnIdx =
            BpfMap.ArrayMap.lookup state.deployment.nn.nnParameters attr.nnIdx := by
      intro hstage f attr hframe hattr
      exact (h.untouched _ (hreads packet ktime program rfl hnext hstage f attr hframe hattr)).symm
    exact congrArg some (exec_congr_maps h.nnIdx hslot ktime)

theorem Refines.xdp (h : Refines nets state atomic) {packet : ℕ} {ktime : Ktime}
    (hreads : ReadsWhole frames state (.xdp packet ktime)) :
    Refines nets (state.step frames nets (.xdp packet ktime))
      (atomic.step frames nets (.xdp packet ktime)) := by
  have hmachine : atomic.machine.step loadedProgs frames ⟨packet, ktime, atomic.nn⟩ =
      state.deployment.machine.step loadedProgs frames ⟨packet, ktime, state.deployment.nn⟩ := by
    unfold Machine.step
    rw [h.outcome_eq hreads, h.machine]
  exact ⟨hmachine, h.runs, h.nnIdx, valid_step _ h.valid, h.alone, h.remaining, h.untouched,
    h.copied⟩

/-! ## Calls -/

theorem not_filling_of_alone {uid : ℕ} {slot : S32} {pc : HotPc} {before after : WordDeployment}
    (halone : ∀ other, (before.deployment.runs other).held ≠ none → other = uid)
    (hruns : after.deployment.runs = Function.update before.deployment.runs uid pc)
    (hpc : ∀ nnIdx, pc ≠ .updateParameters nnIdx) (other : ℕ) : ¬ Filling other slot after := by
  rintro ⟨nnIdx, hother, -⟩
  rw [hruns] at hother
  rcases eq_or_ne other uid with rfl | hne
  · rw [Function.update_self] at hother
    exact hpc nnIdx hother
  · rw [Function.update_of_ne hne] at hother
    apply hne
    apply halone
    rw [hother]
    exact Option.some_ne_none _

theorem Refines.alone_of_held (h : Refines nets state atomic) {uid : ℕ}
    (hheld : (state.deployment.runs uid).held ≠ none) (other : ℕ)
    (hother : (state.deployment.runs other).held ≠ none) : other = uid :=
  h.alone other uid hother hheld

/-- One more word, and not the last one. -/
theorem Refines.copy (h : Refines nets state atomic) {uid : ℕ} {nnIdx : S32} {word next : NetWord}
    {rest : List NetWord} (hpc : state.deployment.runs uid = .updateParameters nnIdx)
    (hremaining : state.remaining uid = word :: next :: rest) :
    Refines nets (state.step frames nets (.hot uid)) atomic := by
  have hheld : (state.deployment.runs uid).held ≠ none := by
    rw [hpc]
    exact Option.some_ne_none nnIdx
  have hidx : ValidIdx nnIdx := h.valid.held uid nnIdx (by rw [hpc]; rfl)
  have hfilling : Filling uid (newNnIdx nnIdx) state := ⟨nnIdx, hpc, rfl⟩
  obtain ⟨words, net, hwords, hatomic, hcopied⟩ := h.copied uid _ hfilling
  obtain ⟨target, htarget, hcopy⟩ := copyInto_eq (validIdx_newNnIdx hidx) (nets uid) word
  have htargetEq : target = copyCells copyWord (nets uid) net words :=
    Option.some.inj (htarget.symm.trans hcopied)
  have hruns : Function.update state.deployment.runs uid (.updateParameters nnIdx) =
      state.deployment.runs := by rw [← hpc, Function.update_eq_self]
  have hvalid : Valid (state.step frames nets (.hot uid)).deployment := valid_step _ h.valid
  rw [step_hot_copy hpc hremaining, if_neg (List.cons_ne_nil next rest), hruns, hcopy] at hvalid ⊢
  refine ⟨h.machine, h.runs, h.nnIdx, hvalid, h.alone, ?_, ?_, ?_⟩
  · intro other hother
    have hne : other ≠ uid := by
      rintro rfl
      rw [hpc] at hother
      cases hother
    exact (Function.update_of_ne hne _ _).trans (h.remaining other hother)
  · intro slot hnone
    have hne : slot ≠ newNnIdx nnIdx := fun heq ↦ hnone uid ⟨nnIdx, hpc, heq.symm⟩
    exact (NnMaps.lookup_setParameters_of_ne _ _ hne).trans (h.untouched slot hnone)
  · rintro other slot ⟨otherIdx, hother, hslot⟩
    have heq : other = uid := by
      apply h.alone_of_held hheld
      change state.deployment.runs other = .updateParameters otherIdx at hother
      rw [hother]
      exact Option.some_ne_none _
    subst heq
    have hsame : otherIdx = nnIdx := by
      have hboth : HotPc.updateParameters otherIdx = .updateParameters nnIdx :=
        hother.symm.trans hpc
      exact HotPc.updateParameters.inj hboth
    subst hslot hsame
    refine ⟨words ++ [word], net, ?_, hatomic, ?_⟩
    · simp only [Function.update_self]
      rw [hwords, hremaining, List.append_assoc, List.singleton_append]
    · rw [copyCells_concat, ← htargetEq]
      exact NnMaps.lookup_setParameters_self _ _ (validIdx_newNnIdx hidx).lt

theorem step_store {deployment : Deployment} {uid : ℕ} {nnIdx : S32}
    (hpc : deployment.runs uid = .updateParameters nnIdx) :
    deployment.step frames nets (.hot uid) =
      { deployment with
        nn := deployment.nn.setParameters (newNnIdx nnIdx) (nets uid)
        runs := Function.update deployment.runs uid (.updateIdx nnIdx) } := by
  simp only [Deployment.step, hpc, hotStep, allSucceed, Bool.false_eq_true, if_false]

/-- With its last word a run has stored its network, whatever the slot held before. -/
theorem Refines.step_last (h : Refines nets state atomic) {uid : ℕ} {nnIdx : S32}
    (hpc : state.deployment.runs uid = .updateParameters nnIdx)
    (hlast : (state.remaining uid).length ≤ 1) :
    state.step frames nets (.hot uid) =
      { deployment := state.deployment.step frames nets (.hot uid)
        remaining := Function.update state.remaining uid [] } := by
  have hidx : ValidIdx nnIdx := h.valid.held uid nnIdx (by rw [hpc]; rfl)
  cases hremaining : state.remaining uid with
  | nil =>
    rw [step_hot_whole fun _ _ ↦ hremaining, ← hremaining, Function.update_eq_self]
  | cons word rest =>
    have hrest : rest = [] := by
      rw [hremaining, List.length_cons] at hlast
      exact List.eq_nil_of_length_eq_zero (by omega)
    subst hrest
    obtain ⟨words, net, hwords, -, hcopied⟩ := h.copied uid _ ⟨nnIdx, hpc, rfl⟩
    obtain ⟨target, htarget, hcopy⟩ := copyInto_eq (validIdx_newNnIdx hidx) (nets uid) word
    have htargetEq : target = copyCells copyWord (nets uid) net words :=
      Option.some.inj (htarget.symm.trans hcopied)
    have hwhole : copyWord (nets uid) target word = nets uid := by
      calc
        copyWord (nets uid) target word =
            copyWord (nets uid) (copyCells copyWord (nets uid) net words) word := by rw [htargetEq]
        _ = copyCells copyWord (nets uid) net (words ++ [word]) := (copyCells_concat ..).symm
        _ = nets uid := by
          rw [← hremaining, ← hwords]
          exact isCopy_copyWord.copyCells_all _ _ mem_netWords
    rw [step_hot_copy hpc hremaining, if_pos rfl, hcopy, hwhole, step_store hpc]

/-- A call after which no run copies. -/
theorem Refines.of_slots (h : Refines nets state atomic) {uid : ℕ} {after : WordDeployment}
    {atomicAfter : Deployment} (hheld : (state.deployment.runs uid).held ≠ none) (pc : HotPc)
    (hruns : after.deployment.runs = Function.update state.deployment.runs uid pc)
    (hpc : pc ≠ .lookup ∧ ∀ nnIdx, pc ≠ .updateParameters nnIdx)
    (hatomic : atomicAfter.machine = after.deployment.machine ∧
      atomicAfter.runs = after.deployment.runs ∧
      atomicAfter.nn.nnIdx = after.deployment.nn.nnIdx)
    (hvalid : Valid after.deployment)
    (hremaining : ∀ other, other ≠ uid → after.remaining other = state.remaining other)
    (hslots : ∀ slot, BpfMap.ArrayMap.lookup after.deployment.nn.nnParameters slot =
      BpfMap.ArrayMap.lookup atomicAfter.nn.nnParameters slot) :
    Refines nets after atomicAfter := by
  have halone := h.alone_of_held hheld
  have hothers (other : ℕ) (hother : (after.deployment.runs other).held ≠ none) :
      other = uid := by
    by_contra hne
    rw [hruns, Function.update_of_ne hne] at hother
    exact hne (halone other hother)
  have hnone (other : ℕ) (slot : S32) : ¬ Filling other slot after :=
    not_filling_of_alone halone hruns hpc.2 other
  refine ⟨hatomic.1, hatomic.2.1, hatomic.2.2, hvalid, ?_, ?_, fun slot _ ↦ hslots slot, ?_⟩
  · intro other another hother hanother
    exact (hothers other hother).trans (hothers another hanother).symm
  · intro other hother
    rcases eq_or_ne other uid with rfl | hne
    · rw [hruns, Function.update_self] at hother
      exact absurd hother hpc.1
    · rw [hruns, Function.update_of_ne hne] at hother
      rw [hremaining other hne]
      exact h.remaining other hother
  · intro other slot hfilling
    exact absurd hfilling (hnone other slot)

theorem Refines.store (h : Refines nets state atomic) {uid : ℕ} {nnIdx : S32}
    (hpc : state.deployment.runs uid = .updateParameters nnIdx)
    (hlast : (state.remaining uid).length ≤ 1) :
    Refines nets (state.step frames nets (.hot uid)) (atomic.step frames nets (.hot uid)) := by
  have hheld : (state.deployment.runs uid).held ≠ none := by
    rw [hpc]
    exact Option.some_ne_none nnIdx
  have hidx : ValidIdx nnIdx := h.valid.held uid nnIdx (by rw [hpc]; rfl)
  have hvalid : Valid (state.step frames nets (.hot uid)).deployment := valid_step _ h.valid
  have hatomicPc : atomic.runs uid = .updateParameters nnIdx := by rw [h.runs, hpc]
  rw [h.step_last hpc hlast, step_store hpc] at hvalid ⊢
  rw [step_store hatomicPc]
  apply h.of_slots hheld (.updateIdx nnIdx)
  · rfl
  · simp only [ne_eq, reduceCtorEq, not_false_eq_true, implies_true, and_self]
  · exact ⟨h.machine, by rw [h.runs], h.nnIdx⟩
  · exact hvalid
  · intro other hne
    exact Function.update_of_ne hne _ _
  · intro slot
    rcases eq_or_ne slot (newNnIdx nnIdx) with rfl | hne
    · have hslot := (validIdx_newNnIdx hidx).lt
      exact (NnMaps.lookup_setParameters_self _ _ hslot).trans
        (NnMaps.lookup_setParameters_self _ _ hslot).symm
    · have hnone (other : ℕ) : ¬ Filling other slot state := by
        rintro ⟨otherIdx, hother, heq⟩
        have hsame : other = uid := by
          apply h.alone_of_held hheld
          rw [hother]
          exact Option.some_ne_none _
        rw [hsame, hpc] at hother
        exact hne (heq.symm.trans (congrArg newNnIdx (HotPc.updateParameters.inj hother).symm))
      exact (NnMaps.lookup_setParameters_of_ne _ _ hne).trans
        ((h.untouched slot hnone).trans (NnMaps.lookup_setParameters_of_ne _ _ hne).symm)

theorem Refines.select (h : Refines nets state atomic) {uid : ℕ} {nnIdx : S32}
    (hpc : state.deployment.runs uid = .updateIdx nnIdx) :
    Refines nets (state.step frames nets (.hot uid)) (atomic.step frames nets (.hot uid)) := by
  have hheld : (state.deployment.runs uid).held ≠ none := by
    rw [hpc]
    exact Option.some_ne_none nnIdx
  have hvalid : Valid (state.step frames nets (.hot uid)).deployment := valid_step _ h.valid
  have hatomicPc : atomic.runs uid = .updateIdx nnIdx := by rw [h.runs, hpc]
  have hatomic : atomic.step frames nets (.hot uid) =
      { atomic with
        nn := atomic.nn.setIdx (newNnIdx nnIdx)
        runs := Function.update atomic.runs uid .done } := by
    simp only [Deployment.step, hatomicPc, hotStep, allSucceed, Bool.false_eq_true, if_false]
  have hnone (slot : S32) (other : ℕ) : ¬ Filling other slot state := by
    rintro ⟨otherIdx, hother, -⟩
    have hsame : other = uid := by
      apply h.alone_of_held hheld
      rw [hother]
      exact Option.some_ne_none _
    rw [hsame, hpc] at hother
    cases hother
  rw [step_hot_select frames nets hpc] at hvalid ⊢
  rw [hatomic]
  apply h.of_slots hheld .done
  · rfl
  · simp only [ne_eq, reduceCtorEq, not_false_eq_true, implies_true, and_self]
  · exact ⟨h.machine, by rw [h.runs], by simp only [NnMaps.setIdx, h.nnIdx]⟩
  · exact hvalid
  · intro other _
    rfl
  · intro slot
    exact h.untouched slot (hnone slot)

/-- The slot that a run is going to fill is as it was. -/
theorem Refines.lookup (h : Refines nets state atomic) {uid : ℕ}
    (hpc : state.deployment.runs uid = .lookup)
    (hone : OneAtATime state.deployment (.hot uid)) :
    Refines nets (state.step frames nets (.hot uid)) (atomic.step frames nets (.hot uid)) := by
  have hnone (other : ℕ) : (state.deployment.runs other).held = none := by
    rcases eq_or_ne other uid with rfl | hne
    · rw [hpc]
      rfl
    · exact hone uid rfl other hne
  have hfree (slot : S32) (other : ℕ) : ¬ Filling other slot state := by
    rintro ⟨nnIdx, hother, -⟩
    have hheld := hnone other
    rw [hother] at hheld
    cases hheld
  have hvalid : Valid (state.step frames nets (.hot uid)).deployment := valid_step _ h.valid
  have hatomicPc : atomic.runs uid = .lookup := by rw [h.runs, hpc]
  have hactive : atomic.nn.activeIdx = state.deployment.nn.activeIdx := by
    unfold NnMaps.activeIdx
    rw [h.nnIdx]
  have hatomic : atomic.step frames nets (.hot uid) =
      { atomic with
        runs := Function.update atomic.runs uid
          (.updateParameters state.deployment.nn.activeIdx) } := by
    simp only [Deployment.step, hatomicPc, hotStep, allSucceed, Bool.false_eq_true, if_false,
      hactive]
  have hothers (other : ℕ) (pc : HotPc)
      (hother : (Function.update state.deployment.runs uid pc other).held ≠ none) :
      other = uid := by
    by_contra hne
    rw [Function.update_of_ne hne] at hother
    exact hother (hnone other)
  rw [step_hot_lookup frames nets hpc] at hvalid ⊢
  rw [hatomic]
  refine ⟨h.machine, by rw [h.runs], h.nnIdx, hvalid, ?_, ?_, ?_, ?_⟩
  · intro other another hother hanother
    exact (hothers other _ hother).trans (hothers another _ hanother).symm
  · intro other hother
    rcases eq_or_ne other uid with rfl | hne
    · simp only [Function.update_self, reduceCtorEq] at hother
    · simp only [Function.update_of_ne hne] at hother
      exact h.remaining other hother
  · intro slot _
    exact h.untouched slot (hfree slot)
  · rintro other slot ⟨nnIdx, hother, hslot⟩
    have hsame : other = uid := by
      apply hothers other (.updateParameters state.deployment.nn.activeIdx)
      simp only at hother
      rw [hother]
      exact Option.some_ne_none _
    subst hsame
    have hidx : ValidIdx nnIdx := hvalid.held other nnIdx (by rw [hother]; rfl)
    have hslotIdx : slot.toNat < 2 := hslot ▸ (validIdx_newNnIdx hidx).lt
    obtain ⟨net, hnet⟩ : ∃ net,
        BpfMap.ArrayMap.lookup atomic.nn.nnParameters slot = some net :=
      ⟨_, BpfMap.ArrayMap.lookup_eq_some_of_lt _ hslotIdx⟩
    refine ⟨[], net, ?_, hnet, (h.untouched slot (hfree slot)).trans hnet⟩
    rw [List.nil_append]
    exact (h.remaining other hpc).symm

theorem Refines.done (h : Refines nets state atomic) {uid : ℕ}
    (hpc : state.deployment.runs uid = .done) :
    Refines nets (state.step frames nets (.hot uid)) (atomic.step frames nets (.hot uid)) := by
  have hatomicPc : atomic.runs uid = .done := by rw [h.runs, hpc]
  have hstays (deployment : Deployment) (hdone : deployment.runs uid = .done) :
      deployment.step frames nets (.hot uid) = deployment := by
    have hruns : Function.update deployment.runs uid .done = deployment.runs := by
      rw [← hdone, Function.update_eq_self]
    simp only [Deployment.step, hdone, hotStep, hruns]
  have hstate : state.step frames nets (.hot uid) = state := by
    have hwhole : ∀ nnIdx, state.deployment.runs uid = .updateParameters nnIdx →
        state.remaining uid = [] := by
      intro nnIdx hother
      rw [hpc] at hother
      cases hother
    rw [step_hot_whole hwhole, hstays state.deployment hpc]
  rw [hstate, hstays atomic hatomicPc]
  exact h

/-- A step is answered by the same step, or by none if it is not the last word of a copy. -/
theorem Refines.step (h : Refines nets state atomic) {event : DeploymentEvent}
    (hone : OneAtATime state.deployment event) (hreads : ReadsWhole frames state event) :
    Refines nets (state.step frames nets event)
      (Interleaving.run (Deployment.step frames nets) atomic (state.whole event)) := by
  cases event with
  | xdp packet ktime => exact h.xdp hreads
  | hot uid =>
    cases hpc : state.deployment.runs uid with
    | lookup =>
      simp only [whole, hpc]
      exact h.lookup hpc hone
    | updateParameters nnIdx =>
      cases hremaining : state.remaining uid with
      | nil =>
        simp only [whole, hpc, hremaining]
        exact h.store hpc (by rw [hremaining]; decide)
      | cons word rest =>
        cases rest with
        | nil =>
          simp only [whole, hpc, hremaining]
          exact h.store hpc (by rw [hremaining, List.length_singleton])
        | cons next rest =>
          simp only [whole, hpc, hremaining]
          exact h.copy hpc hremaining
    | updateIdx nnIdx =>
      simp only [whole, hpc]
      exact h.select hpc
    | done =>
      simp only [whole, hpc]
      exact h.done hpc

/-- The answer prints what the step prints. -/
theorem Refines.printed_eq (h : Refines nets state atomic) {event : DeploymentEvent}
    (hreads : ReadsWhole frames state event) :
    printed frames state.deployment event =
      Interleaving.trace (Deployment.step frames nets) (printed frames) atomic
        (state.whole event) := by
  cases event with
  | xdp packet ktime =>
    have hlines : printed frames atomic (.xdp packet ktime) =
        printed frames state.deployment (.xdp packet ktime) := by
      simp only [printed, Machine.turnLines, h.outcome_eq hreads]
    exact hlines.symm.trans (List.append_nil _).symm
  | hot uid =>
    simp only [whole]
    split
    · rfl
    · rfl

def isXdp : DeploymentEvent → Bool
  | .xdp _ _ => true
  | .hot _ => false

theorem whole_cases (state : WordDeployment) (event : DeploymentEvent) :
    state.whole event = [event] ∨ state.whole event = [] ∧ isXdp event = false := by
  cases event with
  | xdp packet ktime => exact Or.inl rfl
  | hot uid =>
    simp only [whole]
    split
    · exact Or.inr ⟨rfl, rfl⟩
    · exact Or.inl rfl

/-- Where runs of `hot_updating` come one after another and no stage looks up a slot that is being
filled, updates that copy word by word cannot be told from atomic ones: with the calls of the runs
thinned out to one for each update, atomic updates lead to the same entries, the same next programs
and the same lines, and to the same network in every slot that is not being filled. -/
theorem updates_as_if_atomic (hinitial : Initial state) {events : List DeploymentEvent}
    (hone : Interleaving.Throughout (WordDeployment.step frames nets)
      (fun reached event ↦ OneAtATime reached.deployment event) state events)
    (hreads : Interleaving.Throughout (WordDeployment.step frames nets) (ReadsWhole frames) state
      events) :
    ∃ atomicEvents : List DeploymentEvent,
      let fine := Interleaving.run (WordDeployment.step frames nets) state events
      let coarse := Interleaving.run (Deployment.step frames nets) state.deployment atomicEvents
      atomicEvents.Sublist events ∧ atomicEvents.filter isXdp = events.filter isXdp ∧
        coarse.machine = fine.deployment.machine ∧ coarse.runs = fine.deployment.runs ∧
        coarse.nn.activeIdx = fine.deployment.nn.activeIdx ∧
        (∀ slot, (∀ uid, ¬ Filling uid slot fine) →
          BpfMap.ArrayMap.lookup fine.deployment.nn.nnParameters slot =
            BpfMap.ArrayMap.lookup coarse.nn.nnParameters slot) ∧
        Interleaving.trace (WordDeployment.step frames nets)
            (fun reached event ↦ printed frames reached.deployment event) state events =
          Interleaving.trace (Deployment.step frames nets) (printed frames) state.deployment
            atomicEvents := by
  have hstates : ∀ (state : WordDeployment) (atomic : Deployment) event,
      OneAtATime state.deployment event ∧ ReadsWhole frames state event →
      Refines nets state atomic →
      Refines nets (state.step frames nets event)
        (Interleaving.run (Deployment.step frames nets) atomic (state.whole event)) :=
    fun _ _ _ hevent h ↦ h.step hevent.1 hevent.2
  have hlogs : ∀ (state : WordDeployment) (atomic : Deployment) event,
      OneAtATime state.deployment event ∧ ReadsWhole frames state event →
      Refines nets state atomic →
      printed frames state.deployment event =
        Interleaving.trace (Deployment.step frames nets) (printed frames) atomic
          (state.whole event) :=
    fun _ _ _ hevent h ↦ h.printed_eq hevent.2
  have hboth : Interleaving.Throughout (WordDeployment.step frames nets)
      (fun reached event ↦ OneAtATime reached.deployment event ∧ ReadsWhole frames reached event)
      state events :=
    fun earlier event later hsplit ↦
      ⟨hone earlier event later hsplit, hreads earlier event later hsplit⟩
  obtain ⟨hrefines, hlog⟩ := Interleaving.related_run_throughout hstates hlogs
    (Refines.of_initial hinitial) hboth
  obtain ⟨hsublist, hfilter⟩ := Interleaving.trace_sublist (WordDeployment.step frames nets)
    whole_cases state events
  refine ⟨_, hsublist, hfilter, hrefines.machine, hrefines.runs, ?_, hrefines.untouched, hlog⟩
  unfold NnMaps.activeIdx
  rw [hrefines.nnIdx]

end

/-- `xdp_prog` of a closing packet after the first two words of a copy. -/
theorem updates_as_if_atomic_shippedNet :
    let events : List DeploymentEvent := [.hot 0, .hot 0, .hot 0, .xdp 0 ⟨9, 9, 9, 9, 9⟩]
    ∃ atomicEvents : List DeploymentEvent,
      let fine := Interleaving.run (step Deployment.closingFrames Deployment.shippedNets)
        attachedByWords events
      let coarse := Interleaving.run
        (Deployment.step Deployment.closingFrames Deployment.shippedNets) Deployment.attached
        atomicEvents
      atomicEvents.Sublist events ∧ atomicEvents.filter isXdp = events.filter isXdp ∧
        coarse.machine = fine.deployment.machine ∧ coarse.runs = fine.deployment.runs ∧
        coarse.nn.activeIdx = fine.deployment.nn.activeIdx := by
  intro events
  have hone : Interleaving.Throughout (step Deployment.closingFrames Deployment.shippedNets)
      (fun reached event ↦ Deployment.OneAtATime reached.deployment event) attachedByWords
      events := by
    intro earlier event later hsplit uid heq other hne
    have hown {run : ℕ} (hrun : .hot run ∈ events) : run = 0 := by
      simpa [events] using hrun
    have huid : uid = 0 := hown (by rw [hsplit, heq]; simp)
    have hother : .hot other ∉ earlier := by
      intro hmem
      exact hne ((hown (by rw [hsplit]; exact List.mem_append_left _ hmem)).trans huid.symm)
    rw [runs_run_of_not_mem hother]
    rfl
  have hreads : Interleaving.Throughout (step Deployment.closingFrames Deployment.shippedNets)
      (ReadsWhole Deployment.closingFrames) attachedByWords events := by
    intro earlier event later hsplit packet ktime program hevent hnext hstage
    have hlast : earlier = [.hot 0, .hot 0, .hot 0] ∧ packet = 0 := by
      subst hevent
      rcases earlier with _ | ⟨_, _ | ⟨_, _ | ⟨_, _ | ⟨_, _⟩⟩⟩⟩ <;> simp [events] at hsplit
      exact ⟨by simp [← hsplit.1, ← hsplit.2.1, ← hsplit.2.2.1], hsplit.2.2.2.1.1.symm⟩
    rw [hlast.1, hlast.2] at hnext
    have hfirst : (Interleaving.run (step Deployment.closingFrames Deployment.shippedNets)
        attachedByWords [.hot 0, .hot 0, .hot 0]).deployment.machine.next 0 = some .xdpProg := by
      decide +kernel
    rw [Option.some.inj (hnext.symm.trans hfirst)] at hstage
    exact absurd hstage Bool.false_ne_true
  obtain ⟨atomicEvents, h⟩ := updates_as_if_atomic initial_attachedByWords hone hreads
  simp only at h
  exact ⟨atomicEvents, h.1, h.2.1, h.2.2.1, h.2.2.2.1, h.2.2.2.2.1⟩

end WordDeployment

end NNeBPF

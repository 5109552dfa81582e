import NNeBPF.Control.HotUpdating
import NNeBPF.Xdp.SharedBuffers

/-!
# Hot updates while packets are processed

The attached programs and any number of runs of `hot_updating` share `nn_parameters` and `nn_idx`.
A step is one execution of an XDP program or one map call of a run.

A detection reads the slot that was active when `xdp_prog` stored its index in the flow's entry.
What it reads there is what the last update of this slot wrote.  One run at a time changes only the
other slot, so a single run in the meantime goes unnoticed; two of them do not.
-/

namespace NNeBPF

open Mlp

/-- The XDP programs at work, the two maps of the network and the runs of `hot_updating`. -/
structure Deployment where
  machine : Machine
  nn : NnMaps
  runs : ℕ → HotPc

/-- One execution of a packet's next program, or the next map call of a run. -/
inductive DeploymentEvent
  | xdp (packet : ℕ) (ktime : Ktime)
  | hot (uid : ℕ)

namespace Deployment

section

variable (frames : ℕ → Frame) (nets : ℕ → Net)

/-- The run `uid` installs `nets uid`; the programs see the two maps as they are at the step. -/
def step (deployment : Deployment) : DeploymentEvent → Deployment
  | .xdp packet ktime =>
    { deployment with
      machine := deployment.machine.step loadedProgs frames ⟨packet, ktime, deployment.nn⟩ }
  | .hot uid =>
    let after := hotStep allSucceed (nets uid) (deployment.runs uid) deployment.nn
    { deployment with
      nn := after.2
      runs := Function.update deployment.runs uid after.1 }

/-- The `Net` that a stage of the packet finds if it runs now: the one in the slot that the entry of
the packet's flow selects. -/
def netRead (packet : ℕ) (deployment : Deployment) : Option Net :=
  (flowTuple (frames packet)).bind fun f ↦
    (deployment.machine.flowMap.lookup f).bind fun attr ↦
      BpfMap.ArrayMap.lookup deployment.nn.nnParameters attr.nnIdx

/-- What a step stores into a slot of `nn_parameters`. -/
def stores (slot : S32) (deployment : Deployment) : DeploymentEvent → Option Net
  | .xdp _ _ => none
  | .hot uid =>
    match deployment.runs uid with
    | .updateParameters nnIdx => if newNnIdx nnIdx = slot then some (nets uid) else none
    | _ => none

end

/-- The active index selects a slot, and so does every index that a run has looked up. -/
structure Valid (deployment : Deployment) : Prop where
  activeIdx : ValidIdx deployment.nn.activeIdx
  held : ∀ uid nnIdx, (deployment.runs uid).held = some nnIdx → ValidIdx nnIdx

/-- No run has begun, and the active index selects a slot. -/
structure Initial (deployment : Deployment) : Prop where
  activeIdx : ValidIdx deployment.nn.activeIdx
  runs : ∀ uid, deployment.runs uid = .lookup

/-- Every run past its lookup holds the index that is still active. -/
def Fresh (deployment : Deployment) : Prop :=
  ∀ uid nnIdx, (deployment.runs uid).held = some nnIdx → nnIdx = deployment.nn.activeIdx

/-- One run after another: while a run is past its lookup and not at its end, no other run takes a
step. -/
def OneAtATime (deployment : Deployment) (event : DeploymentEvent) : Prop :=
  ∀ uid, event = .hot uid → ∀ other, other ≠ uid → (deployment.runs other).held = none

/-- The step is not one of another packet of the flow `f`. -/
def Quiet (frames : ℕ → Frame) (f : Flow) (packet : ℕ) (event : DeploymentEvent) : Prop :=
  ∀ other ktime, event = .xdp other ktime → other ≠ packet → flowTuple (frames other) ≠ some f

/-- The entry of `f` selects the slot `idx`, and the packet is past `xdp_prog`. -/
structure PinnedAt (idx : S32) (f : Flow) (packet : ℕ) (deployment : Deployment) : Prop where
  entry : ∃ attr, deployment.machine.flowMap.lookup f = some attr ∧ attr.nnIdx = idx
  next : deployment.machine.next packet ≠ some .xdpProg

theorem Initial.valid {deployment : Deployment} (h : Initial deployment) : Valid deployment where
  activeIdx := h.activeIdx
  held := by
    intro uid nnIdx hheld
    rw [h.runs uid] at hheld
    cases hheld

theorem Initial.fresh {deployment : Deployment} (h : Initial deployment) : Fresh deployment := by
  intro uid nnIdx hheld
  rw [h.runs uid] at hheld
  cases hheld

section

variable {frames : ℕ → Frame} {nets : ℕ → Net} {deployment : Deployment}

/-! ## Steps -/

/-- The other runs stay where they are. -/
theorem runs_step_hot_of_ne {uid other : ℕ} (hne : other ≠ uid) :
    (deployment.step frames nets (.hot uid)).runs other = deployment.runs other :=
  Function.update_of_ne hne _ _

variable (frames nets deployment) in
/-- What one map call of a run does, by where the run stands. -/
theorem step_hot_cases (uid : ℕ) :
    (deployment.runs uid = .lookup ∧
      (deployment.step frames nets (.hot uid)).nn = deployment.nn ∧
      (deployment.step frames nets (.hot uid)).runs uid =
        .updateParameters deployment.nn.activeIdx) ∨
    (∃ nnIdx, deployment.runs uid = .updateParameters nnIdx ∧
      (deployment.step frames nets (.hot uid)).nn =
        deployment.nn.setParameters (newNnIdx nnIdx) (nets uid) ∧
      (deployment.step frames nets (.hot uid)).runs uid = .updateIdx nnIdx) ∨
    (∃ nnIdx, deployment.runs uid = .updateIdx nnIdx ∧
      (deployment.step frames nets (.hot uid)).nn = deployment.nn.setIdx (newNnIdx nnIdx) ∧
      (deployment.step frames nets (.hot uid)).runs uid = .done) ∨
    (deployment.runs uid = .done ∧
      (deployment.step frames nets (.hot uid)).nn = deployment.nn ∧
      (deployment.step frames nets (.hot uid)).runs uid = .done) := by
  cases hpc : deployment.runs uid with
  | lookup => simp [step, hpc, hotStep, allSucceed]
  | updateParameters nnIdx => simp [step, hpc, hotStep, allSucceed]
  | updateIdx nnIdx => simp [step, hpc, hotStep, allSucceed]
  | done => simp [step, hpc, hotStep]

/-- A call of a run keeps all indices valid, also when it fails. -/
theorem valid_hotStep (fails : HotCall → Bool) (net : Net) (uid : ℕ) (h : Valid deployment) :
    Valid
      { deployment with
        nn := (hotStep fails net (deployment.runs uid) deployment.nn).2
        runs := Function.update deployment.runs uid
          (hotStep fails net (deployment.runs uid) deployment.nn).1 } := by
  obtain ⟨hactive, hown⟩ := validIdx_hotStep fails net h.activeIdx (h.held uid)
  refine ⟨hactive, ?_⟩
  intro other nnIdx hheld
  rcases eq_or_ne other uid with rfl | hne
  · simp only [Function.update_self] at hheld
    exact hown nnIdx hheld
  · simp only [Function.update_of_ne hne] at hheld
    exact h.held other nnIdx hheld

theorem valid_step (event : DeploymentEvent) (h : Valid deployment) :
    Valid (deployment.step frames nets event) := by
  cases event with
  | xdp packet ktime => exact ⟨h.activeIdx, h.held⟩
  | hot uid => exact valid_hotStep allSucceed (nets uid) uid h

/-- A slot holds what was last stored into it. -/
theorem lookup_step {slot : S32} (hslot : slot.toNat < 2) (event : DeploymentEvent) :
    BpfMap.ArrayMap.lookup (deployment.step frames nets event).nn.nnParameters slot =
      (deployment.stores nets slot event).or
        (BpfMap.ArrayMap.lookup deployment.nn.nnParameters slot) := by
  cases event with
  | xdp packet ktime => rfl
  | hot uid =>
    obtain ⟨hpc, hnn, -⟩ | ⟨idx, hpc, hnn, -⟩ | ⟨idx, hpc, hnn, -⟩ | ⟨hpc, hnn, -⟩ :=
      step_hot_cases frames nets deployment uid
    · simp only [stores, hpc, hnn, Option.none_or]
    · simp only [stores, hpc, hnn]
      split_ifs with heq
      · subst heq
        exact NnMaps.lookup_setParameters_self _ _ hslot
      · exact NnMaps.lookup_setParameters_of_ne _ _ (Ne.symm heq)
    · simp only [stores, hpc, hnn, Option.none_or, NnMaps.nnParameters_setIdx]
    · simp only [stores, hpc, hnn, Option.none_or]

/-- While runs come one after another, each holds the active index. -/
theorem fresh_step {event : DeploymentEvent} (hone : OneAtATime deployment event)
    (h : Fresh deployment) : Fresh (deployment.step frames nets event) := by
  cases event with
  | xdp packet ktime => exact h
  | hot uid =>
    intro other nnIdx hheld
    rcases eq_or_ne other uid with rfl | hne
    · obtain ⟨hpc, hnn, hruns⟩ | ⟨idx, hpc, hnn, hruns⟩ | ⟨idx, hpc, hnn, hruns⟩ |
        ⟨hpc, hnn, hruns⟩ := step_hot_cases frames nets deployment other
      · rw [hruns] at hheld
        cases hheld
        rw [hnn]
      · rw [hruns] at hheld
        have heq : idx = nnIdx := Option.some.inj hheld
        rw [hnn, ← heq]
        exact h other idx (by rw [hpc]; rfl)
      · rw [hruns] at hheld
        cases hheld
      · rw [hruns] at hheld
        cases hheld
    · rw [runs_step_hot_of_ne hne, hone uid rfl other hne] at hheld
      cases hheld

/-- The packet's own stages and other flows keep the entry at its slot. -/
theorem pinnedAt_step {idx : S32} (hidx : ValidIdx idx) {f : Flow} {packet : ℕ}
    (hframe : flowTuple (frames packet) = some f) {event : DeploymentEvent}
    (hquiet : Quiet frames f packet event) (h : PinnedAt idx f packet deployment) :
    PinnedAt idx f packet (deployment.step frames nets event) := by
  cases event with
  | hot uid => exact ⟨h.entry, h.next⟩
  | xdp other ktime =>
    obtain ⟨attr, hattr, hselect⟩ := h.entry
    rcases eq_or_ne other packet with rfl | hne
    · cases hnext : deployment.machine.next other with
      | none =>
        simp only [step]
        rw [Machine.step_of_next_eq_none loadedProgs hnext]
        exact h
      | some program =>
        have hstage : program ≠ .xdpProg := fun hprog ↦ h.next (by rw [hnext, hprog])
        have hturn : flowTuple (frames (⟨other, ktime, deployment.nn⟩ : Turn).packet) = some f :=
          hframe
        obtain ⟨hentry, hexit⟩ := Machine.lookup_step_of_ofFlow loadedProgs hturn hnext hattr
        obtain ⟨net, hnet⟩ :
            ∃ net, BpfMap.ArrayMap.lookup deployment.nn.nnParameters attr.nnIdx = some net :=
          ⟨_, BpfMap.ArrayMap.lookup_eq_some_of_lt _ (by rw [hselect]; exact hidx.lt)⟩
        refine ⟨⟨_, hentry, (nnIdx_entryStep_of_stage hstage).trans hselect⟩, ?_⟩
        have hfollowing := hexit.trans (next_entryStep hstage hnet)
        exact hfollowing.trans_ne program.following_ne_xdpProg
    · have hforeign : Machine.ofFlow frames f ⟨other, ktime, deployment.nn⟩ = false := by
        have hflow := hquiet other ktime rfl hne
        simpa [Machine.ofFlow] using hflow
      refine ⟨⟨attr, ?_, hselect⟩, ?_⟩
      · exact (Machine.lookup_step_of_not_ofFlow loadedProgs hforeign).trans hattr
      · have hkept : (deployment.machine.step loadedProgs frames
            ⟨other, ktime, deployment.nn⟩).next packet = deployment.machine.next packet :=
          Machine.next_step_of_ne loadedProgs hne.symm
        exact hkept.trans_ne h.next

/-- `xdp_prog` of a packet that starts a detection pins the active slot. -/
theorem pinnedAt_of_start {f : Flow} {packet : ℕ} {ktime : Ktime}
    (hframe : flowTuple (frames packet) = some f)
    (hstart : deployment.machine.next packet = some .xdpProg)
    (hpin : (deployment.step frames nets (.xdp packet ktime)).machine.next packet =
      some .xdpPreprocessing) :
    PinnedAt deployment.nn.activeIdx f packet
      (deployment.step frames nets (.xdp packet ktime)) := by
  refine ⟨?_, by rw [hpin]; decide⟩
  have hnext : deployment.machine.next (⟨packet, ktime, deployment.nn⟩ : Turn).packet =
      some .xdpProg := hstart
  simp only [step] at hpin ⊢
  rw [Machine.step_of_next_eq_some loadedProgs hnext] at hpin ⊢
  rcases exit_xdpProg hframe ktime deployment.nn deployment.machine.flowMap with hpass | hentry
  · simp [hpass, Exit.next] at hpin
  · exact hentry

theorem netRead_of_pinnedAt {idx : S32} {f : Flow} {packet : ℕ}
    (hframe : flowTuple (frames packet) = some f) (h : PinnedAt idx f packet deployment) :
    deployment.netRead frames packet =
      BpfMap.ArrayMap.lookup deployment.nn.nnParameters idx := by
  obtain ⟨attr, hattr, hselect⟩ := h.entry
  rw [netRead, hframe, Option.bind_some, hattr, Option.bind_some, hselect]

/-- The three calls of a run, with nothing in between, are a complete run. -/
theorem run_hot_complete {uid : ℕ} (h : deployment.runs uid = .lookup) :
    Interleaving.run (step frames nets) deployment [.hot uid, .hot uid, .hot uid] =
      { machine := deployment.machine
        nn := hotUpdate (nets uid) deployment.nn
        runs := Function.update deployment.runs uid .done } := by
  simp [step, h, hotStep, hotUpdate]

/-! ## A single run -/

/-- The run has ended, or the index `idx` is still active. -/
def Unflipped (idx : S32) (uid : ℕ) (deployment : Deployment) : Prop :=
  deployment.runs uid = .done ∨ deployment.nn.activeIdx = idx

theorem unflipped_step {idx : S32} {uid : ℕ} {event : DeploymentEvent}
    (halone : ∀ other, event = .hot other → other = uid) (h : Unflipped idx uid deployment) :
    Unflipped idx uid (deployment.step frames nets event) := by
  cases event with
  | xdp packet ktime => exact h
  | hot other =>
    have hown : other = uid := halone other rfl
    subst hown
    unfold Unflipped at h ⊢
    obtain ⟨hpc, hnn, hruns⟩ | ⟨nnIdx, hpc, hnn, hruns⟩ | ⟨nnIdx, hpc, hnn, hruns⟩ |
      ⟨hpc, hnn, hruns⟩ := step_hot_cases frames nets deployment other
    · rw [hpc] at h
      rw [hnn]
      exact Or.inr (h.resolve_left (by decide))
    · rw [hpc] at h
      rw [hnn]
      exact Or.inr (h.resolve_left (by simp))
    · exact Or.inl hruns
    · exact Or.inl hruns

/-- A run that holds the active index `idx` stores nothing into the slot `idx`. -/
theorem stores_eq_none {idx : S32} {uid : ℕ} {event : DeploymentEvent}
    (halone : ∀ other, event = .hot other → other = uid) (hvalid : Valid deployment)
    (hfresh : Fresh deployment) (h : Unflipped idx uid deployment) :
    deployment.stores nets idx event = none := by
  cases event with
  | xdp packet ktime => rfl
  | hot other =>
    have hown : other = uid := halone other rfl
    subst hown
    cases hpc : deployment.runs other with
    | lookup => simp only [stores, hpc]
    | updateIdx nnIdx => simp only [stores, hpc]
    | done => simp only [stores, hpc]
    | updateParameters nnIdx =>
      have hheld : (deployment.runs other).held = some nnIdx := by
        rw [hpc]
        rfl
      have hactive : deployment.nn.activeIdx = idx := h.resolve_left (by rw [hpc]; simp)
      have hheldIdx : nnIdx = idx := (hfresh other nnIdx hheld).trans hactive
      have hidx : ValidIdx idx := hactive ▸ hvalid.activeIdx
      have hother : newNnIdx nnIdx ≠ idx := by
        rw [hheldIdx]
        exact fun heq ↦ (newNnIdx_eq_iff hidx hidx).mp heq rfl
      simp only [stores, hpc, if_neg hother]

/-- A single run, among runs that come one after another, stores nothing into the slot that was
active when it was not yet complete. -/
theorem lastWrite_eq_none_of_alone {idx : S32} {uid : ℕ} (hvalid : Valid deployment)
    (hfresh : Fresh deployment) (hidx : Unflipped idx uid deployment)
    {events : List DeploymentEvent}
    (hone : Interleaving.Throughout (step frames nets) OneAtATime deployment events)
    (halone : ∀ other, .hot other ∈ events → other = uid) :
    Interleaving.lastWrite (step frames nets) (stores nets idx) deployment events = none := by
  have hstep : ∀ state event,
      (OneAtATime state event ∧ ∀ other, event = .hot other → other = uid) →
      (Valid state ∧ Fresh state ∧ Unflipped idx uid state) →
      Valid (state.step frames nets event) ∧ Fresh (state.step frames nets event) ∧
        Unflipped idx uid (state.step frames nets event) := by
    rintro state event ⟨hevent, hown⟩ ⟨h1, h2, h3⟩
    exact ⟨valid_step event h1, fresh_step hevent h2, unflipped_step hown h3⟩
  have hevents : Interleaving.Throughout (step frames nets)
      (fun state event ↦ OneAtATime state event ∧ ∀ other, event = .hot other → other = uid)
      deployment events := by
    intro earlier event later hlater
    refine ⟨hone earlier event later hlater, ?_⟩
    intro other hother
    exact halone other (by simp [hlater, hother])
  apply Interleaving.lastWrite_eq_none
  exact Interleaving.throughout_of_invariant (step frames nets) hstep
    (fun _ _ hevent h ↦ stores_eq_none hevent.2 h.1 h.2.1 h.2.2) ⟨hvalid, hfresh, hidx⟩ hevents

/-! ## What a detection reads -/

/-- What the stages of a detection read is what was last stored into the pinned slot, so it is the
pinned network exactly if the last such store since the pin, if there was one, stored the same
network.  Where runs come one after another and only one of them takes steps since the pin, it is
the pinned network. -/
theorem netRead_eq_lastWrite {frames : ℕ → Frame} {nets : ℕ → Net} {f : Flow} {packet : ℕ}
    (hframe : flowTuple (frames packet) = some f) {deployment : Deployment}
    (hinitial : Initial deployment) {before during : List DeploymentEvent} {ktime : Ktime}
    (hstart : (Interleaving.run (step frames nets) deployment before).machine.next packet =
      some .xdpProg)
    (hpin : (Interleaving.run (step frames nets) deployment
      (before ++ [.xdp packet ktime])).machine.next packet = some .xdpPreprocessing)
    (hquiet : ∀ event ∈ during, Quiet frames f packet event) :
    let start := Interleaving.run (step frames nets) deployment before
    let pinned := Interleaving.run (step frames nets) deployment (before ++ [.xdp packet ktime])
    let reached := Interleaving.run (step frames nets) pinned during
    let stored := Interleaving.lastWrite (step frames nets) (stores nets start.nn.activeIdx) pinned
      during
    ∃ pinnedNet,
      BpfMap.ArrayMap.lookup start.nn.nnParameters start.nn.activeIdx = some pinnedNet ∧
      reached.netRead frames packet = some (stored.getD pinnedNet) ∧
      (reached.netRead frames packet = some pinnedNet ↔ ∀ net ∈ stored, net = pinnedNet) ∧
      (Interleaving.Throughout (step frames nets) OneAtATime deployment
          (before ++ .xdp packet ktime :: during) →
        (∃ uid, ∀ other, .hot other ∈ during → other = uid) →
        reached.netRead frames packet = some pinnedNet) := by
  intro start pinned reached stored
  have hvalid : Valid start :=
    Interleaving.run_invariant (step frames nets) (fun _ event h ↦ valid_step event h)
      hinitial.valid before
  have hidx : ValidIdx start.nn.activeIdx := hvalid.activeIdx
  have hpinnedStep : pinned = start.step frames nets (.xdp packet ktime) :=
    Interleaving.run_concat _ _ _ _
  obtain ⟨pinnedNet, hnet⟩ :
      ∃ net, BpfMap.ArrayMap.lookup start.nn.nnParameters start.nn.activeIdx = some net :=
    ⟨_, BpfMap.ArrayMap.lookup_eq_some_of_lt _ hidx.lt⟩
  have hpinned : PinnedAt start.nn.activeIdx f packet pinned := by
    change pinned.machine.next packet = some .xdpPreprocessing at hpin
    rw [hpinnedStep] at hpin ⊢
    exact pinnedAt_of_start hframe hstart hpin
  have hreached : PinnedAt start.nn.activeIdx f packet reached :=
    Interleaving.run_induction (step frames nets)
      (fun _ event hevent h ↦ pinnedAt_step hidx hframe hevent h) hpinned hquiet
  have hslot : BpfMap.ArrayMap.lookup reached.nn.nnParameters start.nn.activeIdx =
      stored.or (BpfMap.ArrayMap.lookup pinned.nn.nnParameters start.nn.activeIdx) :=
    Interleaving.read_run (step frames nets) (stores nets start.nn.activeIdx)
      (fun state ↦ BpfMap.ArrayMap.lookup state.nn.nnParameters start.nn.activeIdx)
      (fun _ event ↦ lookup_step hidx.lt event) pinned during
  have hpinnedNet : BpfMap.ArrayMap.lookup pinned.nn.nnParameters start.nn.activeIdx =
      some pinnedNet := by
    rw [hpinnedStep]
    exact hnet
  have hread : reached.netRead frames packet = some (stored.getD pinnedNet) := by
    rw [netRead_of_pinnedAt hframe hreached, hslot, hpinnedNet]
    cases stored <;> rfl
  refine ⟨pinnedNet, hnet, hread, ?_, ?_⟩
  · rw [hread]
    cases stored <;> simp
  · intro hone halone
    obtain ⟨uid, halone⟩ := halone
    have hsplit : before ++ .xdp packet ktime :: during =
        (before ++ [.xdp packet ktime]) ++ during := by simp
    rw [hsplit] at hone
    obtain ⟨hfirst, hsecond⟩ := Interleaving.throughout_append hone
    have hfresh : Fresh pinned :=
      Interleaving.run_induction_throughout (step frames nets)
        (fun _ _ hevent h ↦ fresh_step hevent h) hinitial.fresh hfirst
    have hpinnedValid : Valid pinned := by
      rw [hpinnedStep]
      exact valid_step _ hvalid
    have hpinnedIdx : Unflipped start.nn.activeIdx uid pinned := by
      rw [hpinnedStep]
      exact Or.inr rfl
    have hnothing : stored = none :=
      lastWrite_eq_none_of_alone hpinnedValid hfresh hpinnedIdx hsecond halone
    rw [hread, hnothing]
    rfl

end

/-! ## Runs of `hot_updating` during a detection -/

/-- The loader has attached the program, no packet has arrived and no run has begun. -/
def attached : Deployment where
  machine := ⟨BpfMap.HashMap.empty, fun _ ↦ some .xdpProg⟩
  nn := NnMaps.zero.setIdx initialNnIdx
  runs := fun _ ↦ .lookup

/-- One closing packet of one flow after another. -/
def closingFrames : ℕ → Frame := fun _ ↦ hostFrame 7 40 true

/-- Every run installs the shipped network. -/
def shippedNets : ℕ → Net := fun _ ↦ shippedNet

theorem initial_attached : Initial attached where
  activeIdx := Or.inr rfl
  runs := fun _ ↦ rfl

/-- The first packet has pinned slot 1. -/
def afterPin : Deployment := attached.step closingFrames shippedNets (.xdp 0 ⟨9, 9, 9, 9, 9⟩)

theorem next_afterPin : afterPin.machine.next 0 = some .xdpPreprocessing := by decide +kernel

theorem lookup_attached :
    BpfMap.ArrayMap.lookup attached.nn.nnParameters attached.nn.activeIdx = some Net.zero := rfl

/-- A single run between the pin and a later read of the first packet goes unnoticed. -/
theorem netRead_after_one_run :
    (Interleaving.run (step closingFrames shippedNets) afterPin
      [.hot 0, .hot 0, .hot 0]).netRead closingFrames 0 = some Net.zero := by
  have hquiet : ∀ event ∈ ([.hot 0, .hot 0, .hot 0] : List DeploymentEvent),
      Quiet closingFrames (hostFlow 7) 0 event := by
    intro event hevent other ktime heq
    simp [heq] at hevent
  have hstart : (Interleaving.run (step closingFrames shippedNets) attached []).machine.next 0 =
      some .xdpProg := rfl
  have hpin : (Interleaving.run (step closingFrames shippedNets) attached
      ([] ++ [.xdp 0 ⟨9, 9, 9, 9, 9⟩])).machine.next 0 = some .xdpPreprocessing := next_afterPin
  obtain ⟨pinnedNet, hnet, hread, -⟩ := netRead_eq_lastWrite (flowTuple_hostFrame 7 40 true)
    initial_attached hstart hpin hquiet
  have hzero : pinnedNet = Net.zero := Option.some.inj (hnet.symm.trans lookup_attached)
  subst hzero
  exact hread

/-- Two runs one after the other between the pin and the read of `xdp_preprocessing` replace the
pinned network. -/
theorem netRead_after_two_runs :
    BpfMap.ArrayMap.lookup attached.nn.nnParameters attached.nn.activeIdx = some Net.zero ∧
      (Interleaving.run (step closingFrames shippedNets) afterPin
        ([.hot 0, .hot 0, .hot 0] ++ [.hot 1, .hot 1, .hot 1])).machine.next 0 =
          some .xdpPreprocessing ∧
      (Interleaving.run (step closingFrames shippedNets) afterPin
        ([.hot 0, .hot 0, .hot 0] ++ [.hot 1, .hot 1, .hot 1])).netRead closingFrames 0 =
          some shippedNet ∧
      shippedNet ≠ Net.zero := by
  have hpinned : PinnedAt attached.nn.activeIdx (hostFlow 7) 0 afterPin :=
    pinnedAt_of_start (flowTuple_hostFrame 7 40 true) rfl next_afterPin
  have hruns : Interleaving.run (step closingFrames shippedNets) afterPin
      ([.hot 0, .hot 0, .hot 0] ++ [.hot 1, .hot 1, .hot 1]) =
        { machine := afterPin.machine
          nn := hotUpdate shippedNet (hotUpdate shippedNet attached.nn)
          runs := Function.update (Function.update afterPin.runs 0 .done) 1 .done } := by
    rw [Interleaving.run_append, run_hot_complete rfl, run_hot_complete rfl]
    rfl
  rw [hruns]
  refine ⟨lookup_attached, next_afterPin, ?_, ?_⟩
  · have hvalid : ValidIdx (hotUpdate shippedNet attached.nn).activeIdx := Or.inl rfl
    have hback : (hotUpdate shippedNet (hotUpdate shippedNet attached.nn)).activeIdx =
        attached.nn.activeIdx := by
      rw [activeIdx_hotUpdate, activeIdx_hotUpdate]
      decide
    have hslot := lookup_hotUpdate_activeIdx shippedNet hvalid
    rw [hback] at hslot
    rw [← hslot]
    exact netRead_of_pinnedAt (flowTuple_hostFrame 7 40 true) ⟨hpinned.entry, hpinned.next⟩
  · intro heq
    have hmean := congrArg (fun net : Net ↦ net.mean.get 0) heq
    revert hmean
    decide +kernel

end Deployment

end NNeBPF

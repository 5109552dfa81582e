import NNeBPF.Control.Detection

/-!
# Networks and labels while updates go on

Runs of `hot_updating` may overlap, and detections go on meanwhile.  A slot that a run has filled
stays filled, so once a run has completed every later detection works with networks that runs have
installed, however the runs overlap.

Where runs come one after another and no more than one of them takes steps during a detection, the
whole detection is done by one network, the one that was selected when it began: the printed line
has its label of the features that were recorded then.
-/

namespace NNeBPF

open Mlp

namespace Deployment

/-! ## Filled slots -/

/-- The slot holds the network of some run. -/
def Installed (nets : ℕ → Net) (slot : S32) (deployment : Deployment) : Prop :=
  ∃ uid, BpfMap.ArrayMap.lookup deployment.nn.nnParameters slot = some (nets uid)

/-- A run that is about to select a slot has filled it, and after a complete run the active slot is
filled. -/
structure Stocked (nets : ℕ → Net) (deployment : Deployment) : Prop where
  valid : Valid deployment
  ready : ∀ uid nnIdx, deployment.runs uid = .updateIdx nnIdx →
    Installed nets (newNnIdx nnIdx) deployment
  active : ∀ uid, deployment.runs uid = .done → Installed nets deployment.nn.activeIdx deployment

/-- The packet of the flow `f` is not in a detection, or the entry of `f` selects a filled slot. -/
def Served (nets : ℕ → Net) (f : Flow) (packet : ℕ) (deployment : Deployment) : Prop :=
  ∀ program, deployment.machine.next packet = some program → program ≠ .xdpProg →
    ∃ attr, deployment.machine.flowMap.lookup f = some attr ∧ ValidIdx attr.nnIdx ∧
      Installed nets attr.nnIdx deployment

theorem Initial.stocked {nets : ℕ → Net} {deployment : Deployment} (h : Initial deployment) :
    Stocked nets deployment where
  valid := h.valid
  ready := by
    intro uid nnIdx hpc
    rw [h.runs uid] at hpc
    cases hpc
  active := by
    intro uid hpc
    rw [h.runs uid] at hpc
    cases hpc

section

variable {frames : ℕ → Frame} {nets : ℕ → Net} {deployment : Deployment}

/-- Only networks of runs are stored. -/
theorem eq_of_stores {slot : S32} {event : DeploymentEvent} {net : Net}
    (h : deployment.stores nets slot event = some net) : ∃ uid, net = nets uid := by
  cases event with
  | xdp packet ktime => cases h
  | hot uid =>
    cases hpc : deployment.runs uid with
    | updateParameters nnIdx =>
      simp only [stores, hpc] at h
      split_ifs at h
      exact ⟨uid, (Option.some.inj h).symm⟩
    | lookup => simp only [stores, hpc, reduceCtorEq] at h
    | updateIdx nnIdx => simp only [stores, hpc, reduceCtorEq] at h
    | done => simp only [stores, hpc, reduceCtorEq] at h

/-- A filled slot stays filled. -/
theorem installed_step {slot : S32} (hslot : ValidIdx slot) (event : DeploymentEvent)
    (h : Installed nets slot deployment) :
    Installed nets slot (deployment.step frames nets event) := by
  unfold Installed
  rw [lookup_step hslot.lt event]
  cases hstores : deployment.stores nets slot event with
  | none => exact h
  | some net =>
    obtain ⟨uid, hnet⟩ := eq_of_stores hstores
    exact ⟨uid, by rw [hnet]; rfl⟩

/-- The store of a run fills the slot that it is about to select. -/
theorem installed_of_updateParameters {uid : ℕ} {nnIdx : S32} (hvalid : Valid deployment)
    (hpc : deployment.runs uid = .updateParameters nnIdx) :
    Installed nets (newNnIdx nnIdx) (deployment.step frames nets (.hot uid)) := by
  have hslot : ValidIdx (newNnIdx nnIdx) :=
    validIdx_newNnIdx (hvalid.held uid nnIdx (by rw [hpc]; rfl))
  have hstores : deployment.stores nets (newNnIdx nnIdx) (.hot uid) = some (nets uid) := by
    simp only [stores, hpc, if_true]
  refine ⟨uid, ?_⟩
  rw [lookup_step hslot.lt, hstores]
  rfl

/-- A call leaves the slots ready that runs are about to select, and fills one more. -/
theorem ready_step (h : Stocked nets deployment) (uid other : ℕ) (nnIdx : S32)
    (hpc : (deployment.step frames nets (.hot uid)).runs other = .updateIdx nnIdx) :
    Installed nets (newNnIdx nnIdx) (deployment.step frames nets (.hot uid)) := by
  rcases eq_or_ne other uid with rfl | hne
  · obtain ⟨-, -, hruns⟩ | ⟨held, hbefore, -, hruns⟩ | ⟨held, -, -, hruns⟩ | ⟨-, -, hruns⟩ :=
      step_hot_cases frames nets deployment other
    · rw [hruns] at hpc
      cases hpc
    · rw [hruns, HotPc.updateIdx.injEq] at hpc
      rw [← hpc]
      exact installed_of_updateParameters h.valid hbefore
    · rw [hruns] at hpc
      cases hpc
    · rw [hruns] at hpc
      cases hpc
  · rw [runs_step_hot_of_ne hne] at hpc
    have hslot : ValidIdx nnIdx := h.valid.held other nnIdx (by rw [hpc]; rfl)
    exact installed_step (validIdx_newNnIdx hslot) _ (h.ready other nnIdx hpc)

/-- The active slot of a deployment with a complete run is filled after every call. -/
theorem active_step (h : Stocked nets deployment) (uid other : ℕ)
    (hpc : (deployment.step frames nets (.hot uid)).runs other = .done) :
    Installed nets (deployment.step frames nets (.hot uid)).nn.activeIdx
      (deployment.step frames nets (.hot uid)) := by
  have hkept (hdone : ∃ run, deployment.runs run = .done) :
      Installed nets deployment.nn.activeIdx (deployment.step frames nets (.hot uid)) := by
    obtain ⟨run, hrun⟩ := hdone
    exact installed_step h.valid.activeIdx _ (h.active run hrun)
  have hother (hne : other ≠ uid) : ∃ run, deployment.runs run = .done :=
    ⟨other, (runs_step_hot_of_ne hne).symm.trans hpc⟩
  obtain ⟨-, hnn, hruns⟩ | ⟨nnIdx, -, hnn, hruns⟩ | ⟨nnIdx, hbefore, hnn, -⟩ |
    ⟨hbefore, hnn, -⟩ := step_hot_cases frames nets deployment uid
  · have hne : other ≠ uid := by
      rintro rfl
      rw [hruns] at hpc
      cases hpc
    rw [hnn]
    exact hkept (hother hne)
  · have hne : other ≠ uid := by
      rintro rfl
      rw [hruns] at hpc
      cases hpc
    rw [hnn, NnMaps.activeIdx_setParameters]
    exact hkept (hother hne)
  · -- The run selects the slot that it has filled.
    have hslot : ValidIdx nnIdx := h.valid.held uid nnIdx (by rw [hbefore]; rfl)
    rw [hnn, NnMaps.activeIdx_setIdx]
    exact installed_step (validIdx_newNnIdx hslot) _ (h.ready uid nnIdx hbefore)
  · rw [hnn]
    exact hkept ⟨uid, hbefore⟩

theorem stocked_step (event : DeploymentEvent) (h : Stocked nets deployment) :
    Stocked nets (deployment.step frames nets event) := by
  have hvalid : Valid (deployment.step frames nets event) := valid_step event h.valid
  cases event with
  | xdp packet ktime => exact ⟨hvalid, h.ready, h.active⟩
  | hot uid => exact ⟨hvalid, ready_step h uid, active_step h uid⟩

/-- A complete run stays complete. -/
theorem done_step {uid : ℕ} (event : DeploymentEvent) (h : deployment.runs uid = .done) :
    (deployment.step frames nets event).runs uid = .done := by
  cases event with
  | xdp packet ktime => exact h
  | hot other =>
    rcases eq_or_ne uid other with rfl | hne
    · simp [step, h, hotStep]
    · rw [runs_step_hot_of_ne hne]
      exact h

variable (frames nets) in
/-- An execution leaves the index of an entry or stores the active one. -/
theorem nnIdx_after_xdp {f : Flow} {attr : FlowAttribute}
    (hattr : deployment.machine.flowMap.lookup f = some attr) (packet : ℕ) (ktime : Ktime) :
    ∃ after,
      (deployment.step frames nets (.xdp packet ktime)).machine.flowMap.lookup f = some after ∧
        (after.nnIdx = attr.nnIdx ∨ after.nnIdx = deployment.nn.activeIdx) := by
  let turn : Turn := ⟨packet, ktime, deployment.nn⟩
  cases hown : Machine.ofFlow frames f turn with
  | false =>
    exact ⟨attr, (Machine.lookup_step_of_not_ofFlow loadedProgs hown).trans hattr, Or.inl rfl⟩
  | true =>
    have hframe : flowTuple (frames turn.packet) = some f := by
      simpa [Machine.ofFlow] using hown
    cases hnext : deployment.machine.next turn.packet with
    | none =>
      refine ⟨attr, ?_, Or.inl rfl⟩
      simp only [step]
      rw [Machine.step_of_next_eq_none loadedProgs hnext]
      exact hattr
    | some program =>
      refine ⟨_, (Machine.lookup_step_of_ofFlow loadedProgs hframe hnext hattr).1, ?_⟩
      rcases eq_or_ne program .xdpProg with rfl | hstage
      · exact nnIdx_progBody_cases
      · exact Or.inl (nnIdx_entryStep_of_stage hstage)

/-- A detection that begins after a complete run, or that is served already, is served. -/
theorem served_step {f : Flow} {packet : ℕ} (hframe : flowTuple (frames packet) = some f)
    (hstocked : Stocked nets deployment) (hdone : ∃ uid, deployment.runs uid = .done)
    (event : DeploymentEvent) (h : Served nets f packet deployment) :
    Served nets f packet (deployment.step frames nets event) := by
  obtain ⟨uid, huid⟩ := hdone
  have hactive := hstocked.active uid huid
  intro program hprogram hstage
  cases event with
  | hot other =>
    obtain ⟨attr, hattr, hvalid, hinstalled⟩ := h program hprogram hstage
    exact ⟨attr, hattr, hvalid, installed_step hvalid _ hinstalled⟩
  | xdp other ktime =>
    by_cases hentry : ∃ attr, deployment.machine.flowMap.lookup f = some attr ∧
        ValidIdx attr.nnIdx ∧ Installed nets attr.nnIdx deployment
    · obtain ⟨attr, hattr, hvalid, hinstalled⟩ := hentry
      obtain ⟨after, hafter, hidx | hidx⟩ := nnIdx_after_xdp frames nets hattr other ktime
      · exact ⟨after, hafter, hidx ▸ hvalid, hidx ▸ hinstalled⟩
      · exact ⟨after, hafter, hidx ▸ hstocked.valid.activeIdx, hidx ▸ hactive⟩
    · -- The packet was not in a detection, so this step is its `xdp_prog`.
      have hfirst {own : XdpProgram} (hown : deployment.machine.next packet = some own) :
          own = .xdpProg := by
        by_contra hother
        exact hentry (h own hown hother)
      rcases eq_or_ne packet other with rfl | hne
      · cases hnext : deployment.machine.next packet with
        | none =>
          rw [machine_step_xdp_of_none ktime hnext, hnext] at hprogram
          cases hprogram
        | some own =>
          have hprog := hfirst hnext
          subst hprog
          have hmachine : (deployment.step frames nets (.xdp packet ktime)).machine = _ :=
            machine_step_xdp ktime hnext
          rw [hmachine] at hprogram ⊢
          rcases exit_xdpProg hframe ktime deployment.nn deployment.machine.flowMap with
            hpass | ⟨attr, hattr, hidx⟩
          · simp [hpass, Exit.next] at hprogram
          · exact ⟨attr, hattr, hidx ▸ hstocked.valid.activeIdx, hidx ▸ hactive⟩
      · have hkept : (deployment.step frames nets (.xdp other ktime)).machine.next packet =
            deployment.machine.next packet := Machine.next_step_of_ne loadedProgs hne
        rw [hkept] at hprogram
        exact absurd (hfirst hprogram) hstage

/-! ## One network for a detection -/

/-- The step is no `xdp_prog` of another packet of the flow `f`, which pins a slot anew or records a
packet, and no stage of one that rewrites what the detection of `packet` reads next. -/
def Calm (frames : ℕ → Frame) (f : Flow) (packet : ℕ) (deployment : Deployment)
    (event : DeploymentEvent) : Prop :=
  ∀ other ktime, event = .xdp other ktime → other ≠ packet → flowTuple (frames other) = some f →
    ∀ program, deployment.machine.next other = some program → program ≠ .xdpProg ∧
      ∀ own, deployment.machine.next packet = some own → program.clobbers own = false

/-- The slot `idx` holds `net`, and the entry of `f` selects it and carries the intermediate result
for the features `x` that the detection of `packet` reads next. -/
structure Working (net : Net) (x : Vector S64 6) (idx : S32) (f : Flow) (packet : ℕ)
    (deployment : Deployment) : Prop where
  slot : BpfMap.ArrayMap.lookup deployment.nn.nnParameters idx = some net
  entry : ∃ attr, deployment.machine.flowMap.lookup f = some attr ∧ attr.nnIdx = idx ∧
    ∀ own, deployment.machine.next packet = some own → Carries net x own attr

/-- `xdp_prog` puts a detection to work with the network that is selected then. -/
theorem working_of_start {f : Flow} {packet : ℕ} {ktime : Ktime}
    (hframe : flowTuple (frames packet) = some f) (hidx : ValidIdx deployment.nn.activeIdx)
    (hstart : deployment.machine.next packet = some .xdpProg)
    (hpin : (deployment.step frames nets (.xdp packet ktime)).machine.next packet =
      some .xdpPreprocessing) :
    ∃ net attr,
      BpfMap.ArrayMap.lookup deployment.nn.nnParameters deployment.nn.activeIdx = some net ∧
      (deployment.step frames nets (.xdp packet ktime)).machine.flowMap.lookup f = some attr ∧
      Working net attr.features deployment.nn.activeIdx f packet
        (deployment.step frames nets (.xdp packet ktime)) := by
  obtain ⟨net, hnet⟩ : ∃ net,
      BpfMap.ArrayMap.lookup deployment.nn.nnParameters deployment.nn.activeIdx = some net :=
    ⟨_, BpfMap.ArrayMap.lookup_eq_some_of_lt _ hidx.lt⟩
  have hpinned : PinnedAt deployment.nn.activeIdx f packet
      (deployment.step frames nets (.xdp packet ktime)) := pinnedAt_of_start hframe hstart hpin
  obtain ⟨attr, hattr, hattrIdx⟩ := hpinned.entry
  refine ⟨net, attr, hnet, hattr, hnet, attr, hattr, hattrIdx, ?_⟩
  intro own hown
  have hfirst : own = .xdpPreprocessing := Option.some.inj (hown.symm.trans hpin)
  rw [hfirst]
  exact rfl

/-- At its last stage a detection at work prints the label of its network. -/
theorem printed_of_working {net : Net} {x : Vector S64 6} {idx : S32} {f : Flow} {packet : ℕ}
    (hframe : flowTuple (frames packet) = some f) (h : Working net x idx f packet deployment)
    (hprint : deployment.machine.next packet = some .xdpOutputLinear) (ktime : Ktime) :
    ∃ line,
      (deployment.machine.outcome frames ⟨packet, ktime, deployment.nn⟩).bind Outcome.printk =
        some line ∧ line.label = label (referenceNetwork net x) := by
  obtain ⟨last, hlast, hlastIdx, hcarries⟩ := h.entry
  have hread : BpfMap.ArrayMap.lookup deployment.nn.nnParameters last.nnIdx = some net := by
    rw [hlastIdx]
    exact h.slot
  have hturn : deployment.machine.next (⟨packet, ktime, deployment.nn⟩ : Turn).packet =
      some .xdpOutputLinear := hprint
  have hprinted : ∃ line,
      (entryStep f .xdpOutputLinear ktime deployment.nn (frames packet) last).printk =
        some line ∧ line.label = label (referenceNetwork net x) :=
    printk_of_carries hread (hcarries .xdpOutputLinear hprint)
  obtain ⟨line, hline, hlabel⟩ := hprinted
  refine ⟨line, ?_, hlabel⟩
  rw [Machine.outcome_of_next_eq_some hturn, Option.bind_some]
  exact (congrArg Outcome.printk (exec_of_lookup_eq_some hframe hlast _ _ _)).trans hline

/-- An execution that disturbs nothing leaves the detection at work. -/
theorem working_xdp {net : Net} {x : Vector S64 6} {idx : S32} {f : Flow} {packet : ℕ}
    (hframe : flowTuple (frames packet) = some f) {other : ℕ} {ktime : Ktime}
    (hcalm : Calm frames f packet deployment (.xdp other ktime))
    (h : Working net x idx f packet deployment) :
    Working net x idx f packet (deployment.step frames nets (.xdp other ktime)) := by
  obtain ⟨attr, hattr, hidx, hcarries⟩ := h.entry
  refine ⟨h.slot, ?_⟩
  let turn : Turn := ⟨other, ktime, deployment.nn⟩
  have hkept (hne : packet ≠ other) :
      (deployment.step frames nets (.xdp other ktime)).machine.next packet =
        deployment.machine.next packet := Machine.next_step_of_ne loadedProgs hne
  cases hown : Machine.ofFlow frames f turn with
  | false =>
    have hne : packet ≠ other := by
      rintro rfl
      simp [Machine.ofFlow, turn, hframe] at hown
    refine ⟨attr, (Machine.lookup_step_of_not_ofFlow loadedProgs hown).trans hattr, hidx, ?_⟩
    intro own hnext
    rw [hkept hne] at hnext
    exact hcarries own hnext
  | true =>
    have hturn : flowTuple (frames turn.packet) = some f := by
      simpa [Machine.ofFlow] using hown
    cases hnext : deployment.machine.next turn.packet with
    | none =>
      refine ⟨attr, ?_⟩
      simp only [step]
      rw [Machine.step_of_next_eq_none loadedProgs hnext]
      exact ⟨hattr, hidx, hcarries⟩
    | some program =>
      obtain ⟨hentry, hexit⟩ := Machine.lookup_step_of_ofFlow loadedProgs hturn hnext hattr
      have hnet : BpfMap.ArrayMap.lookup turn.nn.nnParameters attr.nnIdx = some net := by
        rw [hidx]
        exact h.slot
      have hstage : program ≠ .xdpProg := by
        rintro rfl
        rcases eq_or_ne other packet with heq | hne
        · exact hcarries .xdpProg (heq ▸ hnext)
        · exact (hcalm other ktime rfl hne hturn _ hnext).1 rfl
      refine ⟨_, hentry, (nnIdx_entryStep_of_stage hstage).trans hidx, ?_⟩
      intro own hownNext
      rcases eq_or_ne other packet with heq | hne
      · subst heq
        have hfollowing : program.following = some own :=
          (next_entryStep hstage hnet).symm.trans (hexit.symm.trans hownNext)
        exact carries_following hnet hfollowing (hcarries program hnext)
      · rw [hkept hne.symm] at hownNext
        exact carries_of_not_clobbers ((hcalm other ktime rfl hne hturn _ hnext).2 own hownNext)
          (hcarries own hownNext)

theorem working_step {net : Net} {x : Vector S64 6} {idx : S32} (hidx : ValidIdx idx) {f : Flow}
    {packet : ℕ} (hframe : flowTuple (frames packet) = some f) {event : DeploymentEvent}
    (hcalm : Calm frames f packet deployment event)
    (hstores : deployment.stores nets idx event = none)
    (h : Working net x idx f packet deployment) :
    Working net x idx f packet (deployment.step frames nets event) := by
  cases event with
  | xdp other ktime => exact working_xdp hframe hcalm h
  | hot uid =>
    refine ⟨?_, h.entry⟩
    rw [lookup_step hidx.lt, hstores]
    exact h.slot

/-- While runs come one after another and only `uid` takes steps, nothing is stored into the slot
that was active when `uid` was not yet complete. -/
theorem throughout_stores_eq_none {idx : S32} {uid : ℕ} (hvalid : Valid deployment)
    (hfresh : Fresh deployment) (hidx : Unflipped idx uid deployment)
    {events : List DeploymentEvent}
    (hone : Interleaving.Throughout (step frames nets) OneAtATime deployment events)
    (halone : ∀ other, .hot other ∈ events → other = uid) :
    Interleaving.Throughout (step frames nets)
      (fun reached event ↦ stores nets idx reached event = none) deployment events := by
  have hstep : ∀ state event,
      (OneAtATime state event ∧ ∀ other, event = .hot other → other = uid) →
      (Valid state ∧ Fresh state ∧ Unflipped idx uid state) →
      Valid (state.step frames nets event) ∧ Fresh (state.step frames nets event) ∧
        Unflipped idx uid (state.step frames nets event) := by
    rintro state event ⟨hevent, hown⟩ ⟨h1, h2, h3⟩
    exact ⟨valid_step event h1, fresh_step hevent h2, unflipped_step hown h3⟩
  have hstores : ∀ state event,
      (OneAtATime state event ∧ ∀ other, event = .hot other → other = uid) →
      (Valid state ∧ Fresh state ∧ Unflipped idx uid state) →
      state.stores nets idx event = none :=
    fun _ _ hevent h ↦ stores_eq_none hevent.2 h.1 h.2.1 h.2.2
  apply Interleaving.throughout_of_invariant (step frames nets) hstep hstores ⟨hvalid, hfresh, hidx⟩
  intro earlier event later hlater
  refine ⟨hone earlier event later hlater, ?_⟩
  intro other hother
  exact halone other (by simp [hlater, hother])

end

/-! ## Whole runs -/

section

variable {frames : ℕ → Frame} {nets : ℕ → Net} {deployment : Deployment}

/-- A run that takes no step stays where it is. -/
theorem runs_run_of_not_mem {uid : ℕ} {events : List DeploymentEvent} (h : .hot uid ∉ events) :
    (Interleaving.run (step frames nets) deployment events).runs uid = deployment.runs uid := by
  have hstep : ∀ state event, event ≠ .hot uid →
      (fun reached : Deployment ↦ reached.runs uid = deployment.runs uid) state →
      (state.step frames nets event).runs uid = deployment.runs uid := by
    intro state event hne hstate
    cases event with
    | xdp packet ktime => exact hstate
    | hot other =>
      have hother : uid ≠ other := by
        rintro rfl
        exact hne rfl
      exact (runs_step_hot_of_ne hother).trans hstate
  apply Interleaving.run_induction (step frames nets) hstep rfl
  rintro event hevent rfl
  exact h hevent

/-- However runs of `hot_updating` overlap: once one of them has completed, the active slot holds
the network of a run, and so does the slot that a detection reads which has begun since. -/
theorem reads_installed (hinitial : Initial deployment) {before after : List DeploymentEvent}
    {uid : ℕ} (hdone : (Interleaving.run (step frames nets) deployment before).runs uid = .done)
    {f : Flow} {packet : ℕ} (hframe : flowTuple (frames packet) = some f)
    (hnew : (Interleaving.run (step frames nets) deployment before).machine.next packet =
      some .xdpProg) :
    let reached := Interleaving.run (step frames nets) deployment (before ++ after)
    Installed nets reached.nn.activeIdx reached ∧
      ∀ program, reached.machine.next packet = some program → program ≠ .xdpProg →
        ∃ source, reached.netRead frames packet = some (nets source) := by
  intro reached
  have hstocked : Stocked nets (Interleaving.run (step frames nets) deployment before) :=
    Interleaving.run_invariant (step frames nets) (fun _ event h ↦ stocked_step event h)
      hinitial.stocked before
  have hserved : Served nets f packet (Interleaving.run (step frames nets) deployment before) := by
    intro program hprogram hstage
    exact absurd (Option.some.inj (hprogram.symm.trans hnew)) hstage
  have hstep : ∀ state event,
      (Stocked nets state ∧ state.runs uid = .done ∧ Served nets f packet state) →
      Stocked nets (state.step frames nets event) ∧
        (state.step frames nets event).runs uid = .done ∧
        Served nets f packet (state.step frames nets event) := by
    rintro state event ⟨h1, h2, h3⟩
    exact ⟨stocked_step event h1, done_step event h2, served_step hframe h1 ⟨uid, h2⟩ event h3⟩
  have hreached :
      Stocked nets reached ∧ reached.runs uid = .done ∧ Served nets f packet reached := by
    have hsplit : reached = Interleaving.run (step frames nets)
        (Interleaving.run (step frames nets) deployment before) after :=
      Interleaving.run_append _ _ _ _
    rw [hsplit]
    exact Interleaving.run_invariant (step frames nets) hstep ⟨hstocked, hdone, hserved⟩ after
  refine ⟨hreached.1.active uid hreached.2.1, ?_⟩
  intro program hprogram hstage
  obtain ⟨attr, hattr, -, source, hsource⟩ := hreached.2.2 program hprogram hstage
  refine ⟨source, ?_⟩
  rw [netRead, hframe, Option.bind_some, hattr, Option.bind_some, hsource]

/-- Where runs of `hot_updating` come one after another and only one of them takes steps between
the `xdp_prog` and the `xdp_output_linear` of a closing packet, and no other packet of the flow pins
a slot anew or rewrites what the detection has to read, the printed line has the label that the
network selected at `xdp_prog` gives to the features as `xdp_prog` has left them. -/
theorem label_of_pinned_network {f : Flow} {packet : ℕ}
    (hframe : flowTuple (frames packet) = some f) (hinitial : Initial deployment)
    {before during : List DeploymentEvent} {ktime : Ktime} (printKtime : Ktime)
    (hstart : (Interleaving.run (step frames nets) deployment before).machine.next packet =
      some .xdpProg)
    (hpin : (Interleaving.run (step frames nets) deployment
      (before ++ [.xdp packet ktime])).machine.next packet = some .xdpPreprocessing)
    (hcalm : Interleaving.Throughout (step frames nets) (Calm frames f packet)
      (Interleaving.run (step frames nets) deployment (before ++ [.xdp packet ktime])) during)
    (hone : Interleaving.Throughout (step frames nets) OneAtATime deployment
      (before ++ .xdp packet ktime :: during))
    (halone : ∃ uid, ∀ other, .hot other ∈ during → other = uid)
    (hprint : (Interleaving.run (step frames nets) deployment
      (before ++ .xdp packet ktime :: during)).machine.next packet = some .xdpOutputLinear) :
    let start := Interleaving.run (step frames nets) deployment before
    let pinned := Interleaving.run (step frames nets) deployment (before ++ [.xdp packet ktime])
    let reached := Interleaving.run (step frames nets) deployment
      (before ++ .xdp packet ktime :: during)
    ∃ net attr line,
      BpfMap.ArrayMap.lookup start.nn.nnParameters start.nn.activeIdx = some net ∧
        pinned.machine.flowMap.lookup f = some attr ∧
        (reached.machine.outcome frames ⟨packet, printKtime, reached.nn⟩).bind Outcome.printk =
          some line ∧
        line.label = label (referenceNetwork net attr.features) := by
  intro start pinned reached
  obtain ⟨uid, halone⟩ := halone
  have hvalid : Valid start :=
    Interleaving.run_invariant (step frames nets) (fun _ event h ↦ valid_step event h)
      hinitial.valid before
  have hidx : ValidIdx start.nn.activeIdx := hvalid.activeIdx
  have hpinnedStep : pinned = start.step frames nets (.xdp packet ktime) :=
    Interleaving.run_concat _ _ _ _
  change pinned.machine.next packet = some .xdpPreprocessing at hpin
  rw [hpinnedStep] at hpin
  obtain ⟨net, attr, hnet, hattr, hworking⟩ := working_of_start hframe hidx hstart hpin
  rw [← hpinnedStep] at hattr hworking
  -- Nothing is stored into the pinned slot meanwhile.
  have hsplit : before ++ .xdp packet ktime :: during =
      (before ++ [.xdp packet ktime]) ++ during := by simp
  rw [hsplit] at hone
  obtain ⟨hfirst, hsecond⟩ := Interleaving.throughout_append hone
  have hfresh : Fresh pinned :=
    Interleaving.run_induction_throughout (step frames nets)
      (fun _ _ hevent h ↦ fresh_step hevent h) hinitial.fresh hfirst
  have hpinnedValid : Valid pinned := by
    rw [hpinnedStep]
    exact valid_step _ hvalid
  have hunflipped : Unflipped start.nn.activeIdx uid pinned := by
    rw [hpinnedStep]
    exact Or.inr rfl
  have hstores := throughout_stores_eq_none hpinnedValid hfresh hunflipped hsecond halone
  have hreached : Working net attr.features start.nn.activeIdx f packet reached := by
    have hconcat : reached = Interleaving.run (step frames nets) pinned during := by
      rw [← Interleaving.run_append, ← hsplit]
    have hstep : ∀ state event,
        Calm frames f packet state event ∧ stores nets start.nn.activeIdx state event = none →
        Working net attr.features start.nn.activeIdx f packet state →
        Working net attr.features start.nn.activeIdx f packet (state.step frames nets event) :=
      fun _ _ hevent h ↦ working_step hidx hframe hevent.1 hevent.2 h
    rw [hconcat]
    apply Interleaving.run_induction_throughout (step frames nets) hstep hworking
    intro earlier event later hlater
    exact ⟨hcalm earlier event later hlater, hstores earlier event later hlater⟩
  obtain ⟨line, hline, hlabel⟩ := printed_of_working hframe hreached hprint printKtime
  exact ⟨net, attr, line, hnet, hattr, hline, hlabel⟩

end

/-- Two overlapping runs, and then a detection while a third run begins. -/
theorem reads_installed_shippedNet :
    let reached := Interleaving.run (step closingFrames shippedNets) attached
      ([.hot 0, .hot 1, .hot 0, .hot 1, .hot 1] ++ [.xdp 0 ⟨9, 9, 9, 9, 9⟩, .hot 2, .hot 2])
    Installed shippedNets reached.nn.activeIdx reached ∧
      ∃ source, reached.netRead closingFrames 0 = some (shippedNets source) := by
  intro reached
  have hdone : (Interleaving.run (step closingFrames shippedNets) attached
      [.hot 0, .hot 1, .hot 0, .hot 1, .hot 1]).runs 1 = .done := rfl
  have hnew : (Interleaving.run (step closingFrames shippedNets) attached
      [.hot 0, .hot 1, .hot 0, .hot 1, .hot 1]).machine.next 0 = some .xdpProg := rfl
  have hnext : reached.machine.next 0 = some .xdpPreprocessing := by decide +kernel
  obtain ⟨hactive, hread⟩ := reads_installed initial_attached hdone (flowTuple_hostFrame 7 40 true)
    hnew
  exact ⟨hactive, hread _ hnext (by decide)⟩

/-- A detection with a whole run of `hot_updating` between its stages. -/
theorem label_of_pinned_network_shippedNet :
    let ktime : Ktime := ⟨9, 9, 9, 9, 9⟩
    let during : List DeploymentEvent := [.xdp 0 ktime, .hot 0, .xdp 0 ktime, .hot 0, .xdp 0 ktime,
      .hot 0, .xdp 0 ktime, .xdp 0 ktime]
    let reached := Interleaving.run (step closingFrames shippedNets) attached
      ([] ++ .xdp 0 ktime :: during)
    ∃ net attr line,
      BpfMap.ArrayMap.lookup attached.nn.nnParameters attached.nn.activeIdx = some net ∧
        afterPin.machine.flowMap.lookup (hostFlow 7) = some attr ∧
        (reached.machine.outcome closingFrames ⟨0, ktime, reached.nn⟩).bind Outcome.printk =
          some line ∧
        line.label = label (referenceNetwork net attr.features) := by
  intro ktime during reached
  have halone : ∀ other, .hot other ∈ during → other = 0 := by
    intro other hother
    simpa [during] using hother
  have hcalm : Interleaving.Throughout (step closingFrames shippedNets)
      (Calm closingFrames (hostFlow 7) 0)
      (Interleaving.run (step closingFrames shippedNets) attached ([] ++ [.xdp 0 ktime]))
      during := by
    intro earlier event later hsplit other otherKtime heq hne
    have hmem : .xdp other otherKtime ∈ during := by
      rw [hsplit, heq]
      exact List.mem_append_right _ List.mem_cons_self
    simp [during] at hmem
    exact absurd hmem.1 hne
  have hone : Interleaving.Throughout (step closingFrames shippedNets) OneAtATime attached
      ([] ++ .xdp 0 ktime :: during) := by
    intro earlier event later hsplit uid heq other hne
    have hown {run : ℕ} (hrun : .hot run ∈ [] ++ .xdp 0 ktime :: during) : run = 0 := by
      simpa [during] using hrun
    have huid : uid = 0 := hown (by rw [hsplit, heq]; simp)
    have hother : .hot other ∉ earlier := by
      intro hmem
      exact hne ((hown (by rw [hsplit]; exact List.mem_append_left _ hmem)).trans huid.symm)
    rw [runs_run_of_not_mem hother]
    rfl
  have hstart : (Interleaving.run (step closingFrames shippedNets) attached []).machine.next 0 =
      some .xdpProg := rfl
  have hpin : (Interleaving.run (step closingFrames shippedNets) attached
      ([] ++ [.xdp 0 ktime])).machine.next 0 = some .xdpPreprocessing := next_afterPin
  have hprint : reached.machine.next 0 = some .xdpOutputLinear := by decide +kernel
  exact label_of_pinned_network (flowTuple_hostFrame 7 40 true) initial_attached ktime hstart hpin
    hcalm hone ⟨0, halone⟩ hprint

end Deployment

end NNeBPF

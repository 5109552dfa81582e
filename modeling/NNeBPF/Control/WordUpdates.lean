import NNeBPF.Control.Consistency
import NNeBPF.Library.CellwiseCopy
import NNeBPF.Library.Simulation

/-!
# Updates word by word

`bpf_map_update_elem` copies a network into its slot one word after another, and the XDP programs go
on meanwhile.  A stage that reads the slot in between finds a mixture of two networks.

While runs of `hot_updating` come one after another nobody notices: a run copies into the slot that
is not selected.  As long as no stage looks up a slot that is being filled, the programs do and
print what they do with updates in one step.  Two runs at the same time fill the same slot, and what
they leave there need not be a network that anybody has installed.
-/

namespace NNeBPF

open Mlp CellwiseCopy

/-! ## The words of a network -/

/-- The elements of `struct Net`. -/
inductive NetWord
  | layer0Weight (k : Fin (32 * 6))
  | layer1Weight (k : Fin (32 * 32))
  | layer2Weight (k : Fin (2 * 32))
  | mean (k : Fin 6)
  | scale (k : Fin 6)
deriving DecidableEq

/-- All elements, in the order in which they lie in memory. -/
def netWords : List NetWord :=
  (List.finRange (32 * 6)).map .layer0Weight ++ (List.finRange (32 * 32)).map .layer1Weight ++
    (List.finRange (2 * 32)).map .layer2Weight ++ (List.finRange 6).map .mean ++
      (List.finRange 6).map .scale

def Net.word (net : Net) : NetWord → ℤ
  | .layer0Weight k => (net.layer0Weight.get k).toInt
  | .layer1Weight k => (net.layer1Weight.get k).toInt
  | .layer2Weight k => (net.layer2Weight.get k).toInt
  | .mean k => (net.mean.get k).toInt
  | .scale k => (net.scale.get k).toInt

/-- One write of the copy. -/
def copyWord (source target : Net) : NetWord → Net
  | .layer0Weight k =>
    { target with layer0Weight := target.layer0Weight.set k (source.layer0Weight.get k) }
  | .layer1Weight k =>
    { target with layer1Weight := target.layer1Weight.set k (source.layer1Weight.get k) }
  | .layer2Weight k =>
    { target with layer2Weight := target.layer2Weight.set k (source.layer2Weight.get k) }
  | .mean k => { target with mean := target.mean.set k (source.mean.get k) }
  | .scale k => { target with scale := target.scale.set k (source.scale.get k) }

theorem get_set {α : Type*} {n : ℕ} (target : Vector α n) (k j : Fin n) (x : α) :
    (target.set k x).get j = if j = k then x else target.get j := by
  have hentry : (target.set k x).get j = (target.set k x)[j.val] := rfl
  rw [hentry, Vector.getElem_set]
  by_cases hjk : j = k
  · rw [if_pos hjk, if_pos (Fin.ext_iff.mp hjk.symm)]
  · rw [if_neg hjk, if_neg fun h ↦ hjk (Fin.ext h.symm)]
    rfl

theorem ext_get {n width : ℕ} {left right : Vector (BitVec width) n}
    (h : ∀ k, (left.get k).toInt = (right.get k).toInt) : left = right := by
  apply Vector.ext
  intro k hk
  exact BitVec.eq_of_toInt_eq (h ⟨k, hk⟩)

theorem isCopy_copyWord : IsCopy Net.word copyWord where
  read_put := by
    intro source target cell other
    cases cell <;> cases other <;>
      simp only [Net.word, copyWord, get_set, NetWord.layer0Weight.injEq,
        NetWord.layer1Weight.injEq, NetWord.layer2Weight.injEq, NetWord.mean.injEq,
        NetWord.scale.injEq, reduceCtorEq, if_false] <;> split_ifs <;> simp_all
  ext := by
    intro left right h
    have h0 := ext_get fun k ↦ h (.layer0Weight k)
    have h1 := ext_get fun k ↦ h (.layer1Weight k)
    have h2 := ext_get fun k ↦ h (.layer2Weight k)
    have hmean := ext_get fun k ↦ h (.mean k)
    have hscale := ext_get fun k ↦ h (.scale k)
    cases left
    cases right
    subst h0 h1 h2 hmean hscale
    rfl

theorem mem_netWords (word : NetWord) : word ∈ netWords := by
  cases word <;> simp [netWords]

theorem netWords_ne_nil : netWords ≠ [] := List.ne_nil_of_mem (mem_netWords (.mean 0))

/-! ## Runs that copy -/

/-- A deployment, and of each run the words that its update still has to copy. -/
structure WordDeployment where
  deployment : Deployment
  remaining : ℕ → List NetWord

/-- One word into a slot of `nn_parameters`. -/
def NnMaps.copyInto (nn : NnMaps) (idx : S32) (source : Net) (word : NetWord) : NnMaps :=
  match BpfMap.ArrayMap.lookup nn.nnParameters idx with
  | some target => nn.setParameters idx (copyWord source target word)
  | none => nn

namespace WordDeployment

/-- No run has begun, the active index selects a slot, and every run has all words to copy. -/
structure Initial (state : WordDeployment) : Prop where
  deployment : state.deployment.Initial
  remaining : ∀ uid, state.remaining uid = netWords

section

variable (frames : ℕ → Frame) (nets : ℕ → Net)

/-- A run in its update writes the next word; the call returns with the last one. -/
def step (state : WordDeployment) : DeploymentEvent → WordDeployment
  | .xdp packet ktime =>
    { state with deployment := state.deployment.step frames nets (.xdp packet ktime) }
  | .hot uid =>
    match state.deployment.runs uid, state.remaining uid with
    | .updateParameters nnIdx, word :: rest =>
      { deployment :=
          { state.deployment with
            nn := state.deployment.nn.copyInto (newNnIdx nnIdx) (nets uid) word
            runs := Function.update state.deployment.runs uid
              (if rest = [] then .updateIdx nnIdx else .updateParameters nnIdx) }
        remaining := Function.update state.remaining uid rest }
    | _, _ => { state with deployment := state.deployment.step frames nets (.hot uid) }

/-- Nothing of the maps is different but the contents of the slot that the run fills. -/
structure Fills (uid : ℕ) (before after : Deployment) : Prop where
  machine : after.machine = before.machine
  call : ∃ nnIdx net pc, before.runs uid = .updateParameters nnIdx ∧ pc.held = some nnIdx ∧
    after.nn = before.nn.setParameters (newNnIdx nnIdx) net ∧
    after.runs = Function.update before.runs uid pc

end

section

variable {frames : ℕ → Frame} {nets : ℕ → Net} {state : WordDeployment}

theorem step_hot_copy {uid : ℕ} {nnIdx : S32} {word : NetWord} {rest : List NetWord}
    (hpc : state.deployment.runs uid = .updateParameters nnIdx)
    (hremaining : state.remaining uid = word :: rest) :
    state.step frames nets (.hot uid) =
      { deployment :=
          { state.deployment with
            nn := state.deployment.nn.copyInto (newNnIdx nnIdx) (nets uid) word
            runs := Function.update state.deployment.runs uid
              (if rest = [] then .updateIdx nnIdx else .updateParameters nnIdx) }
        remaining := Function.update state.remaining uid rest } := by
  simp only [step, hpc, hremaining]

theorem step_hot_whole {uid : ℕ}
    (h : ∀ nnIdx, state.deployment.runs uid = .updateParameters nnIdx →
      state.remaining uid = []) :
    state.step frames nets (.hot uid) =
      { state with deployment := state.deployment.step frames nets (.hot uid) } := by
  cases hpc : state.deployment.runs uid with
  | lookup => simp only [step, hpc]
  | updateParameters nnIdx => simp only [step, hpc, h nnIdx hpc]
  | updateIdx nnIdx => simp only [step, hpc]
  | done => simp only [step, hpc]

variable (state) in
/-- A call of a run is one of the calls of `Deployment`, or it writes a word. -/
theorem step_hot_cases (uid : ℕ) :
    (∃ nnIdx word rest, state.deployment.runs uid = .updateParameters nnIdx ∧
      state.remaining uid = word :: rest) ∨
    ∀ nnIdx, state.deployment.runs uid = .updateParameters nnIdx → state.remaining uid = [] := by
  cases hremaining : state.remaining uid with
  | nil => exact Or.inr fun _ _ ↦ rfl
  | cons word rest =>
    cases hpc : state.deployment.runs uid with
    | updateParameters nnIdx => exact Or.inl ⟨nnIdx, word, rest, rfl, rfl⟩
    | lookup => exact Or.inr nofun
    | updateIdx nnIdx => exact Or.inr nofun
    | done => exact Or.inr nofun

open Deployment (Valid Fresh Unflipped OneAtATime Working Calm)

theorem copyInto_eq {nn : NnMaps} {idx : S32} (hidx : ValidIdx idx) (source : Net)
    (word : NetWord) : ∃ target, BpfMap.ArrayMap.lookup nn.nnParameters idx = some target ∧
      nn.copyInto idx source word = nn.setParameters idx (copyWord source target word) := by
  have htarget := BpfMap.ArrayMap.lookup_eq_some_of_lt nn.nnParameters hidx.lt
  refine ⟨_, htarget, ?_⟩
  rw [NnMaps.copyInto, htarget]

theorem fills_step_hot {uid : ℕ} {nnIdx : S32} {word : NetWord} {rest : List NetWord}
    (hvalid : Valid state.deployment)
    (hpc : state.deployment.runs uid = .updateParameters nnIdx)
    (hremaining : state.remaining uid = word :: rest) :
    Fills uid state.deployment (state.step frames nets (.hot uid)).deployment := by
  have hidx : ValidIdx nnIdx := hvalid.held uid nnIdx (by rw [hpc]; rfl)
  obtain ⟨target, -, hcopy⟩ := copyInto_eq (validIdx_newNnIdx hidx) (nets uid) word
  rw [step_hot_copy hpc hremaining]
  refine ⟨rfl, nnIdx, copyWord (nets uid) target word, _, hpc, ?_, hcopy, rfl⟩
  split_ifs <;> rfl

end

/-! ### What a write leaves alone -/

namespace Fills

open Deployment (Valid Fresh Unflipped Working)

variable {uid : ℕ} {before after : Deployment} (h : Fills uid before after)

include h

theorem activeIdx_eq : after.nn.activeIdx = before.nn.activeIdx := by
  obtain ⟨nnIdx, net, pc, -, -, hnn, -⟩ := h.call
  rw [hnn, NnMaps.activeIdx_setParameters]

theorem held_eq (other : ℕ) : (after.runs other).held = (before.runs other).held := by
  obtain ⟨nnIdx, net, pc, hpc, hheld, -, hruns⟩ := h.call
  rw [hruns]
  rcases eq_or_ne other uid with rfl | hne
  · rw [Function.update_self, hheld, hpc]
    rfl
  · rw [Function.update_of_ne hne]

theorem valid (hvalid : Valid before) : Valid after where
  activeIdx := by
    rw [h.activeIdx_eq]
    exact hvalid.activeIdx
  held := by
    intro other nnIdx hheld
    rw [h.held_eq] at hheld
    exact hvalid.held other nnIdx hheld

theorem fresh (hfresh : Fresh before) : Fresh after := by
  intro other nnIdx hheld
  rw [h.held_eq] at hheld
  rw [h.activeIdx_eq]
  exact hfresh other nnIdx hheld

theorem activeIdx_of_unflipped {idx : S32} (hidx : Unflipped idx uid before) :
    before.nn.activeIdx = idx := by
  obtain ⟨nnIdx, net, pc, hpc, -⟩ := h.call
  apply hidx.resolve_left
  rw [hpc]
  exact nofun

theorem unflipped {idx : S32} (hidx : Unflipped idx uid before) : Unflipped idx uid after :=
  Or.inr (h.activeIdx_eq.trans (h.activeIdx_of_unflipped hidx))

/-- The slot that is selected is not the one that is filled. -/
theorem working {idx : S32} (hvalid : Valid before) (hfresh : Fresh before)
    (hidx : Unflipped idx uid before) {net : Net} {x : Vector S64 6} {f : Flow} {packet : ℕ}
    (hworking : Working net x idx f packet before) : Working net x idx f packet after := by
  have hactive := h.activeIdx_of_unflipped hidx
  obtain ⟨nnIdx, stored, pc, hpc, -, hnn, -⟩ := h.call
  have hheld : (before.runs uid).held = some nnIdx := by rw [hpc]; rfl
  have hselected : nnIdx = idx := (hfresh uid nnIdx hheld).trans hactive
  have hvalidIdx : ValidIdx idx := hselected ▸ hvalid.held uid nnIdx hheld
  have hother : idx ≠ newNnIdx nnIdx := by
    rw [hselected]
    exact fun heq ↦ (newNnIdx_eq_iff hvalidIdx hvalidIdx).mp heq.symm rfl
  refine ⟨?_, ?_⟩
  · rw [hnn, NnMaps.lookup_setParameters_of_ne _ _ hother]
    exact hworking.slot
  · rw [h.machine]
    exact hworking.entry

end Fills

/-! ## One network for a detection -/

section

open Deployment (Valid Fresh Unflipped OneAtATime Working Calm)

variable {frames : ℕ → Frame} {nets : ℕ → Net} {state : WordDeployment}

/-- What every step of `Deployment` and every write of a word keep, every step keeps. -/
theorem step_induction {inv : Deployment → Prop} (hvalid : Valid state.deployment)
    (event : DeploymentEvent)
    (hwhole : inv (state.deployment.step frames nets event))
    (hfills : ∀ uid after, event = .hot uid → Fills uid state.deployment after → inv after) :
    inv (state.step frames nets event).deployment := by
  cases event with
  | xdp packet ktime => exact hwhole
  | hot uid =>
    obtain ⟨nnIdx, word, rest, hpc, hremaining⟩ | hnone := step_hot_cases state uid
    · exact hfills uid _ rfl (fills_step_hot hvalid hpc hremaining)
    · rw [step_hot_whole hnone]
      exact hwhole

theorem valid_step (event : DeploymentEvent) (h : Valid state.deployment) :
    Valid (state.step frames nets event).deployment :=
  step_induction h event (Deployment.valid_step event h) fun _ _ _ hfills ↦ hfills.valid h

theorem fresh_step {event : DeploymentEvent} (hone : OneAtATime state.deployment event)
    (hvalid : Valid state.deployment) (h : Fresh state.deployment) :
    Fresh (state.step frames nets event).deployment :=
  step_induction hvalid event (Deployment.fresh_step hone h) fun _ _ _ hfills ↦ hfills.fresh h

/-- A detection stays at work with its network while one run writes its words. -/
theorem working_step {net : Net} {x : Vector S64 6} {idx : S32} (hidx : ValidIdx idx) {f : Flow}
    {packet uid : ℕ} (hframe : flowTuple (frames packet) = some f) {event : DeploymentEvent}
    (hcalm : Calm frames f packet state.deployment event)
    (halone : ∀ other, event = .hot other → other = uid) (hvalid : Valid state.deployment)
    (hfresh : Fresh state.deployment) (hunflipped : Unflipped idx uid state.deployment)
    (h : Working net x idx f packet state.deployment) :
    Working net x idx f packet (state.step frames nets event).deployment := by
  apply step_induction hvalid event
  · exact Deployment.working_step hidx hframe hcalm
      (Deployment.stores_eq_none halone hvalid hfresh hunflipped) h
  · intro other after hevent hfills
    rw [halone other hevent] at hfills
    exact hfills.working hvalid hfresh hunflipped h

theorem unflipped_step {idx : S32} {uid : ℕ} {event : DeploymentEvent}
    (halone : ∀ other, event = .hot other → other = uid) (hvalid : Valid state.deployment)
    (h : Unflipped idx uid state.deployment) :
    Unflipped idx uid (state.step frames nets event).deployment := by
  apply step_induction hvalid event (Deployment.unflipped_step halone h)
  intro other after hevent hfills
  rw [halone other hevent] at hfills
  exact hfills.unflipped h

/-- A detection that began with the selected network, while at most one run takes steps. -/
structure Detecting (net : Net) (x : Vector S64 6) (idx : S32) (f : Flow) (packet uid : ℕ)
    (deployment : Deployment) : Prop where
  valid : Valid deployment
  fresh : Fresh deployment
  unflipped : Unflipped idx uid deployment
  working : Working net x idx f packet deployment

theorem detecting_step {net : Net} {x : Vector S64 6} {idx : S32} (hidx : ValidIdx idx) {f : Flow}
    {packet uid : ℕ} (hframe : flowTuple (frames packet) = some f) {event : DeploymentEvent}
    (hcalm : Calm frames f packet state.deployment event)
    (hone : OneAtATime state.deployment event)
    (halone : ∀ other, event = .hot other → other = uid)
    (h : Detecting net x idx f packet uid state.deployment) :
    Detecting net x idx f packet uid (state.step frames nets event).deployment where
  valid := valid_step event h.valid
  fresh := fresh_step hone h.valid h.fresh
  unflipped := unflipped_step halone h.valid h.unflipped
  working := working_step hidx hframe hcalm halone h.valid h.fresh h.unflipped h.working

/-- Updates that copy their network word by word, one run after another, are as good as updates in
one step: the line that a detection prints has the label that the network selected at its `xdp_prog`
gives to the features recorded then, also if the detection overlaps with a copy. -/
theorem label_of_selected_network {f : Flow} {packet : ℕ}
    (hframe : flowTuple (frames packet) = some f) (hinitial : Initial state)
    {before during : List DeploymentEvent} {ktime : Ktime} (printKtime : Ktime)
    (hstart : (Interleaving.run (step frames nets) state before).deployment.machine.next packet =
      some .xdpProg)
    (hpin : (Interleaving.run (step frames nets) state
      (before ++ [.xdp packet ktime])).deployment.machine.next packet = some .xdpPreprocessing)
    (hcalm : Interleaving.Throughout (step frames nets)
      (fun reached event ↦ Calm frames f packet reached.deployment event)
      (Interleaving.run (step frames nets) state (before ++ [.xdp packet ktime])) during)
    (hone : Interleaving.Throughout (step frames nets)
      (fun reached event ↦ OneAtATime reached.deployment event) state
      (before ++ .xdp packet ktime :: during))
    (halone : ∃ uid, ∀ other, .hot other ∈ during → other = uid)
    (hprint : (Interleaving.run (step frames nets) state
      (before ++ .xdp packet ktime :: during)).deployment.machine.next packet =
        some .xdpOutputLinear) :
    let start := (Interleaving.run (step frames nets) state before).deployment
    let pinned := (Interleaving.run (step frames nets) state
      (before ++ [.xdp packet ktime])).deployment
    let reached := (Interleaving.run (step frames nets) state
      (before ++ .xdp packet ktime :: during)).deployment
    ∃ net attr line,
      BpfMap.ArrayMap.lookup start.nn.nnParameters start.nn.activeIdx = some net ∧
        pinned.machine.flowMap.lookup f = some attr ∧
        (reached.machine.outcome frames ⟨packet, printKtime, reached.nn⟩).bind Outcome.printk =
          some line ∧
        line.label = label (referenceNetwork net attr.features) := by
  intro start pinned reached
  obtain ⟨uid, halone⟩ := halone
  have hsplit : before ++ .xdp packet ktime :: during =
      (before ++ [.xdp packet ktime]) ++ during := by simp
  rw [hsplit] at hone
  obtain ⟨hfirst, hsecond⟩ := Interleaving.throughout_append hone
  obtain ⟨hbefore, -⟩ := Interleaving.throughout_append hfirst
  have hstep : ∀ (state : WordDeployment) event, OneAtATime state.deployment event →
      (Valid state.deployment ∧ Fresh state.deployment) →
      Valid (state.step frames nets event).deployment ∧
        Fresh (state.step frames nets event).deployment :=
    fun _ event hone h ↦ ⟨valid_step event h.1, fresh_step hone h.1 h.2⟩
  obtain ⟨hvalid, hfresh⟩ : Valid start ∧ Fresh start :=
    Interleaving.run_induction_throughout (step frames nets) hstep
      ⟨hinitial.deployment.valid, hinitial.deployment.fresh⟩ hbefore
  have hpinnedStep : pinned = start.step frames nets (.xdp packet ktime) :=
    congrArg WordDeployment.deployment (Interleaving.run_concat (step frames nets) _ _ _)
  change pinned.machine.next packet = some .xdpPreprocessing at hpin
  rw [hpinnedStep] at hpin
  obtain ⟨net, attr, hnet, hattr, hworking⟩ :=
    Deployment.working_of_start hframe hvalid.activeIdx hstart hpin
  rw [← hpinnedStep] at hattr hworking
  have hbegun : Detecting net attr.features start.nn.activeIdx f packet uid pinned := by
    refine ⟨?_, ?_, ?_, hworking⟩
    · rw [hpinnedStep]
      exact Deployment.valid_step _ hvalid
    · rw [hpinnedStep]
      exact Deployment.fresh_step nofun hfresh
    · rw [hpinnedStep]
      exact Or.inr rfl
  have hreached : Detecting net attr.features start.nn.activeIdx f packet uid reached := by
    have hconcat : reached = (Interleaving.run (step frames nets)
        (Interleaving.run (step frames nets) state (before ++ [.xdp packet ktime]))
          during).deployment := by
      rw [← Interleaving.run_append, ← hsplit]
    have hdetecting : ∀ (state : WordDeployment) event,
        (Calm frames f packet state.deployment event ∧ OneAtATime state.deployment event ∧
          ∀ other, event = .hot other → other = uid) →
        Detecting net attr.features start.nn.activeIdx f packet uid state.deployment →
        Detecting net attr.features start.nn.activeIdx f packet uid
          (state.step frames nets event).deployment :=
      fun _ _ hevent h ↦
        detecting_step hvalid.activeIdx hframe hevent.1 hevent.2.1 hevent.2.2 h
    rw [hconcat]
    apply Interleaving.run_induction_throughout (step frames nets) hdetecting hbegun
    intro earlier event later hlater
    refine ⟨hcalm earlier event later hlater, hsecond earlier event later hlater, ?_⟩
    intro other heq
    apply halone other
    rw [hlater, ← heq]
    exact List.mem_append_right _ List.mem_cons_self
  obtain ⟨line, hline, hlabel⟩ :=
    Deployment.printed_of_working hframe hreached.working hprint printKtime
  exact ⟨net, attr, line, hnet, hattr, hline, hlabel⟩

end

section

variable {frames : ℕ → Frame} {nets : ℕ → Net} {state : WordDeployment}

theorem runs_step_hot_of_ne {uid other : ℕ} (hne : other ≠ uid) :
    (state.step frames nets (.hot uid)).deployment.runs other = state.deployment.runs other := by
  obtain ⟨nnIdx, word, rest, hpc, hremaining⟩ | hnone := step_hot_cases state uid
  · rw [step_hot_copy hpc hremaining]
    exact Function.update_of_ne hne _ _
  · rw [step_hot_whole hnone]
    exact @Deployment.runs_step_hot_of_ne frames nets state.deployment uid other hne

/-- A run that takes no step stays where it is. -/
theorem runs_run_of_not_mem {uid : ℕ} {events : List DeploymentEvent} (h : .hot uid ∉ events) :
    (Interleaving.run (step frames nets) state events).deployment.runs uid =
      state.deployment.runs uid := by
  induction events generalizing state with
  | nil => rfl
  | cons event events ih =>
    rw [Interleaving.run_cons, ih (List.not_mem_of_not_mem_cons h)]
    cases event with
    | xdp packet ktime => rfl
    | hot other =>
      have hne : uid ≠ other := fun heq ↦
        List.ne_of_not_mem_cons h (congrArg DeploymentEvent.hot heq)
      exact runs_step_hot_of_ne hne

end

/-- Before any update. -/
def attachedByWords : WordDeployment := ⟨Deployment.attached, fun _ ↦ netWords⟩

theorem initial_attachedByWords : Initial attachedByWords :=
  ⟨Deployment.initial_attached, fun _ ↦ rfl⟩

/-- A detection with the beginning of a copy between its stages. -/
theorem label_of_selected_network_shippedNet :
    let ktime : Ktime := ⟨9, 9, 9, 9, 9⟩
    let during : List DeploymentEvent := [.xdp 0 ktime, .hot 0, .xdp 0 ktime, .hot 0, .xdp 0 ktime,
      .hot 0, .xdp 0 ktime, .xdp 0 ktime]
    let pinned := (Interleaving.run (step Deployment.closingFrames Deployment.shippedNets)
      attachedByWords ([] ++ [.xdp 0 ktime])).deployment
    let reached := (Interleaving.run (step Deployment.closingFrames Deployment.shippedNets)
      attachedByWords ([] ++ .xdp 0 ktime :: during)).deployment
    ∃ net attr line,
      BpfMap.ArrayMap.lookup Deployment.attached.nn.nnParameters
          Deployment.attached.nn.activeIdx = some net ∧
        pinned.machine.flowMap.lookup (hostFlow 7) = some attr ∧
        (reached.machine.outcome Deployment.closingFrames ⟨0, ktime, reached.nn⟩).bind
          Outcome.printk = some line ∧
        line.label = label (referenceNetwork net attr.features) := by
  intro ktime during pinned reached
  have halone : ∀ other, .hot other ∈ during → other = 0 := by
    intro other hother
    simpa [during] using hother
  have hcalm : Interleaving.Throughout (step Deployment.closingFrames Deployment.shippedNets)
      (fun reached event ↦
        Deployment.Calm Deployment.closingFrames (hostFlow 7) 0 reached.deployment event)
      (Interleaving.run (step Deployment.closingFrames Deployment.shippedNets) attachedByWords
        ([] ++ [.xdp 0 ktime])) during := by
    intro earlier event later hsplit other otherKtime heq hne
    have hmem : .xdp other otherKtime ∈ during := by
      rw [hsplit, heq]
      exact List.mem_append_right _ List.mem_cons_self
    simp [during] at hmem
    exact absurd hmem.1 hne
  have hone : Interleaving.Throughout (step Deployment.closingFrames Deployment.shippedNets)
      (fun reached event ↦ Deployment.OneAtATime reached.deployment event) attachedByWords
      ([] ++ .xdp 0 ktime :: during) := by
    intro earlier event later hsplit uid heq other hne
    have hown {run : ℕ} (hrun : .hot run ∈ [] ++ .xdp 0 ktime :: during) : run = 0 := by
      simpa [during] using hrun
    have huid : uid = 0 := hown (by rw [hsplit, heq]; simp)
    have hother : .hot other ∉ earlier := by
      intro hmem
      exact hne ((hown (by rw [hsplit]; exact List.mem_append_left _ hmem)).trans huid.symm)
    rw [runs_run_of_not_mem hother]
    rfl
  have hstart : (Interleaving.run (step Deployment.closingFrames Deployment.shippedNets)
      attachedByWords []).deployment.machine.next 0 = some .xdpProg := rfl
  have hpin : pinned.machine.next 0 = some .xdpPreprocessing := Deployment.next_afterPin
  have hprint : reached.machine.next 0 = some .xdpOutputLinear := by decide +kernel
  exact label_of_selected_network (flowTuple_hostFrame 7 40 true) initial_attachedByWords ktime
    hstart hpin hcalm hone ⟨0, halone⟩ hprint

/-! ## Two runs at the same time -/

/-- Where two runs stand, what they still have to copy, and what the slot holds that both fill. -/
structure TwoRuns (uid other : ℕ) (nnIdx : S32) (pc otherPc : HotPc)
    (words otherWords : List NetWord) (net : Net) (state : WordDeployment) : Prop where
  pc : state.deployment.runs uid = pc
  otherPc : state.deployment.runs other = otherPc
  words : state.remaining uid = words
  otherWords : state.remaining other = otherWords
  slot : BpfMap.ArrayMap.lookup state.deployment.nn.nnParameters (newNnIdx nnIdx) = some net

section

variable (frames : ℕ → Frame) (nets : ℕ → Net) {state : WordDeployment} {uid other : ℕ}
  {nnIdx : S32} {pc otherPc : HotPc} {words otherWords : List NetWord} {net : Net}

theorem TwoRuns.swap (h : TwoRuns uid other nnIdx pc otherPc words otherWords net state) :
    TwoRuns other uid nnIdx otherPc pc otherWords words net state :=
  ⟨h.otherPc, h.pc, h.otherWords, h.words, h.slot⟩

theorem TwoRuns.copy (hne : other ≠ uid) (hidx : ValidIdx nnIdx) {word : NetWord}
    (h : TwoRuns uid other nnIdx (.updateParameters nnIdx) otherPc (word :: words) otherWords net
      state) :
    TwoRuns uid other nnIdx (if words = [] then .updateIdx nnIdx else .updateParameters nnIdx)
      otherPc words otherWords (copyWord (nets uid) net word)
      (state.step frames nets (.hot uid)) := by
  obtain ⟨target, htarget, hcopy⟩ := copyInto_eq (validIdx_newNnIdx hidx) (nets uid) word
  have hnet : target = net := Option.some.inj (htarget.symm.trans h.slot)
  rw [step_hot_copy h.pc h.words]
  refine ⟨Function.update_self .., ?_, Function.update_self .., ?_, ?_⟩
  · exact (Function.update_of_ne hne _ _).trans h.otherPc
  · exact (Function.update_of_ne hne _ _).trans h.otherWords
  · simp only [hcopy, hnet]
    exact NnMaps.lookup_setParameters_self _ _ (validIdx_newNnIdx hidx).lt

/-- A part of the copy, by one of the two runs alone. -/
theorem TwoRuns.copy_some (hne : other ≠ uid) (hidx : ValidIdx nnIdx) {copied : List NetWord}
    (hwords : words ≠ [])
    (h : TwoRuns uid other nnIdx (.updateParameters nnIdx) otherPc (copied ++ words) otherWords net
      state) :
    TwoRuns uid other nnIdx (.updateParameters nnIdx) otherPc words otherWords
      (copyCells copyWord (nets uid) net copied)
      (Interleaving.run (step frames nets) state (List.replicate copied.length (.hot uid))) := by
  induction copied generalizing net state with
  | nil => exact h
  | cons word copied ih =>
    have hmore : copied ++ words ≠ [] := List.append_ne_nil_of_right_ne_nil copied hwords
    have hstep := TwoRuns.copy frames nets hne hidx h
    simp only [List.append_eq, if_neg hmore] at hstep
    exact ih hstep

/-- The rest of the copy. -/
theorem TwoRuns.copy_rest (hne : other ≠ uid) (hidx : ValidIdx nnIdx) (hwords : words ≠ [])
    (h : TwoRuns uid other nnIdx (.updateParameters nnIdx) otherPc words otherWords net state) :
    TwoRuns uid other nnIdx (.updateIdx nnIdx) otherPc [] otherWords
      (copyCells copyWord (nets uid) net words)
      (Interleaving.run (step frames nets) state (List.replicate words.length (.hot uid))) := by
  obtain ⟨copied, last, rfl⟩ := (List.eq_nil_or_concat' words).resolve_left hwords
  have hsome := h.copy_some frames nets hne hidx (List.cons_ne_nil last [])
  have hlast := hsome.copy frames nets hne hidx
  have hcopied : copyWord (nets uid) (copyCells copyWord (nets uid) net copied) last =
      copyCells copyWord (nets uid) net (copied ++ [last]) := (copyCells_concat ..).symm
  have hrun : step frames nets (Interleaving.run (step frames nets) state
      (List.replicate copied.length (.hot uid))) (.hot uid) =
        Interleaving.run (step frames nets) state
          (List.replicate (copied ++ [last]).length (.hot uid)) := by
    rw [List.length_append, List.length_singleton, List.replicate_succ', Interleaving.run_concat]
  rw [if_pos rfl, hcopied, hrun] at hlast
  exact hlast

/-- The index that a run looks up. -/
theorem step_hot_lookup (hpc : state.deployment.runs uid = .lookup) :
    state.step frames nets (.hot uid) =
      { state with
        deployment :=
          { state.deployment with
            runs := Function.update state.deployment.runs uid
              (.updateParameters state.deployment.nn.activeIdx) } } := by
  rw [step_hot_whole fun nnIdx h ↦ nomatch hpc.symm.trans h]
  simp only [Deployment.step, hpc, hotStep, allSucceed, Bool.false_eq_true, if_false]

/-- The selection of the slot that a run has filled. -/
theorem step_hot_select (hpc : state.deployment.runs uid = .updateIdx nnIdx) :
    state.step frames nets (.hot uid) =
      { state with
        deployment :=
          { state.deployment with
            nn := state.deployment.nn.setIdx (newNnIdx nnIdx)
            runs := Function.update state.deployment.runs uid .done } } := by
  rw [step_hot_whole fun _ h ↦ nomatch hpc.symm.trans h]
  simp only [Deployment.step, hpc, hotStep, allSucceed, Bool.false_eq_true, if_false]

/-- Both lookups, before either of the two runs copies. -/
theorem twoRuns_of_initial (hne : other ≠ uid) (hinitial : Initial state)
    (hslot : BpfMap.ArrayMap.lookup state.deployment.nn.nnParameters
      (newNnIdx state.deployment.nn.activeIdx) = some net) :
    TwoRuns uid other state.deployment.nn.activeIdx
      (.updateParameters state.deployment.nn.activeIdx)
      (.updateParameters state.deployment.nn.activeIdx) netWords netWords net
      (Interleaving.run (step frames nets) state [.hot uid, .hot other]) := by
  have hstart (run : ℕ) : state.deployment.runs run = .lookup := hinitial.deployment.runs run
  have hfirst := step_hot_lookup frames nets (hstart uid)
  have hother : (state.step frames nets (.hot uid)).deployment.runs other = .lookup := by
    rw [hfirst]
    exact (Function.update_of_ne hne _ _).trans (hstart other)
  have hsecond := step_hot_lookup frames nets hother
  rw [Interleaving.run_cons, Interleaving.run_cons, Interleaving.run_nil, hsecond, hfirst]
  refine ⟨?_, Function.update_self .., hinitial.remaining uid, hinitial.remaining other, hslot⟩
  exact (Function.update_of_ne hne.symm _ _).trans (Function.update_self ..)

/-- Both selections, after both runs have copied. -/
theorem TwoRuns.select (hne : other ≠ uid)
    (h : TwoRuns uid other nnIdx (.updateIdx nnIdx) (.updateIdx nnIdx) words otherWords net
      state) :
    let reached := Interleaving.run (step frames nets) state [.hot uid, .hot other]
    reached.deployment.runs uid = .done ∧ reached.deployment.runs other = .done ∧
      BpfMap.ArrayMap.lookup reached.deployment.nn.nnParameters reached.deployment.nn.activeIdx =
        some net := by
  intro reached
  have hfirst := step_hot_select frames nets h.pc
  have hother : (state.step frames nets (.hot uid)).deployment.runs other =
      .updateIdx nnIdx := by
    rw [hfirst]
    exact (Function.update_of_ne hne _ _).trans h.otherPc
  have hreached : reached =
      (state.step frames nets (.hot uid)).step frames nets (.hot other) := rfl
  rw [hreached, step_hot_select frames nets hother, hfirst]
  refine ⟨?_, Function.update_self .., ?_⟩
  · exact (Function.update_of_ne hne.symm _ _).trans (Function.update_self ..)
  · simp only [NnMaps.activeIdx_setIdx, NnMaps.nnParameters_setIdx]
    exact h.slot

/-- Wherever the copy of a network is cut: if a second run copies its whole network at this point,
both runs complete, and the slot that they select holds the first part of the one network and the
second part of the other. -/
theorem mixed_network (hne : other ≠ uid) (hinitial : Initial state)
    {first second : List NetWord} (hwords : netWords = first ++ second) (hsecond : second ≠ []) :
    ∃ events mixed,
      (∀ event ∈ events, event = .hot uid ∨ event = .hot other) ∧
      (Interleaving.run (step frames nets) state events).deployment.runs uid = .done ∧
      (Interleaving.run (step frames nets) state events).deployment.runs other = .done ∧
      BpfMap.ArrayMap.lookup
        (Interleaving.run (step frames nets) state events).deployment.nn.nnParameters
        (Interleaving.run (step frames nets) state events).deployment.nn.activeIdx = some mixed ∧
      ∀ word, mixed.word word =
        if word ∈ second then (nets uid).word word else (nets other).word word := by
  have hidx : ValidIdx state.deployment.nn.activeIdx := hinitial.deployment.activeIdx
  have hslot := BpfMap.ArrayMap.lookup_eq_some_of_lt state.deployment.nn.nnParameters
    (validIdx_newNnIdx hidx).lt
  have hbegun := twoRuns_of_initial frames nets hne hinitial hslot
  rw [hwords] at hbegun
  have hcut := hbegun.copy_some frames nets hne hidx hsecond
  rw [← hwords] at hcut
  have hwhole := (hcut.swap.copy_rest frames nets hne.symm hidx netWords_ne_nil).swap
  rw [isCopy_copyWord.copyCells_all _ _ mem_netWords] at hwhole
  have hrest := hwhole.copy_rest frames nets hne hidx hsecond
  have hend := hrest.select frames nets hne
  simp only [← Interleaving.run_append] at hend
  refine ⟨_, _, ?_, hend.1, hend.2.1, hend.2.2, isCopy_copyWord.read_copyCells _ _ second⟩
  intro event hevent
  have hpair (h : event ∈ [DeploymentEvent.hot uid, .hot other]) :
      event = .hot uid ∨ event = .hot other := by simpa using h
  simp only [List.mem_append] at hevent
  rcases hevent with (((h | h) | h) | h) | h
  · exact hpair h
  · exact Or.inl (List.eq_of_mem_replicate h)
  · exact Or.inr (List.eq_of_mem_replicate h)
  · exact Or.inl (List.eq_of_mem_replicate h)
  · exact hpair h

end

/-- Two runs with different networks, and a cut after five words. -/
theorem mixed_network_shippedNet :
    ∃ events mixed,
      (∀ event ∈ events, event = .hot 0 ∨ event = .hot 1) ∧
      (Interleaving.run (step Deployment.closingFrames fun uid ↦
        if uid = 0 then Net.zero else shippedNet) attachedByWords events).deployment.runs 0 =
          .done ∧
      (Interleaving.run (step Deployment.closingFrames fun uid ↦
        if uid = 0 then Net.zero else shippedNet) attachedByWords events).deployment.runs 1 =
          .done ∧
      BpfMap.ArrayMap.lookup
        (Interleaving.run (step Deployment.closingFrames fun uid ↦
          if uid = 0 then Net.zero else shippedNet) attachedByWords
            events).deployment.nn.nnParameters
        (Interleaving.run (step Deployment.closingFrames fun uid ↦
          if uid = 0 then Net.zero else shippedNet) attachedByWords
            events).deployment.nn.activeIdx = some mixed ∧
      ∀ word, mixed.word word =
        if word ∈ netWords.drop 5 then Net.zero.word word else shippedNet.word word := by
  have hlength : netWords.length = 1292 := by simp [netWords]
  have hsecond : netWords.drop 5 ≠ [] := by
    rw [Ne, List.drop_eq_nil_iff, hlength]
    omega
  exact mixed_network Deployment.closingFrames (fun uid ↦ if uid = 0 then Net.zero else shippedNet)
    (by decide) initial_attachedByWords (List.take_append_drop 5 netWords).symm hsecond

end WordDeployment

end NNeBPF

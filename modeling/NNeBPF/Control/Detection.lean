import NNeBPF.Control.Deployment

/-!
# Detections reach their label

After the loader has attached `xdp_prog`, packets are processed and runs of `hot_updating` come and
go, each of whose map calls may fail.  Every stage has early exits: the frame is parsed again, the
flow and the network are looked up, and the tail call must find a program.  None of them is taken
in a detection whose `xdp_prog` has left an entry: the frame stays the same, entries are never
removed, every index stored in `nn_idx` or in an entry is 0 or 1, and the table is complete.
-/

namespace NNeBPF

/-- One execution of a packet's next program, or the next map call of a run, which may fail. -/
inductive UncertainEvent
  | xdp (packet : ℕ) (ktime : Ktime)
  | hot (uid : ℕ) (fails : Bool)

namespace UncertainEvent

def packet : UncertainEvent → Option ℕ
  | .xdp packet _ => some packet
  | .hot _ _ => none

/-- The packets that take a step in a run. -/
def packetsOf (events : List UncertainEvent) : Finset ℕ := (events.filterMap packet).toFinset

theorem packetsOf_concat_xdp (events : List UncertainEvent) (packet : ℕ) (ktime : Ktime) :
    packetsOf (events ++ [.xdp packet ktime]) = insert packet (packetsOf events) := by
  ext other
  simp [packetsOf, UncertainEvent.packet]

theorem packetsOf_concat_hot (events : List UncertainEvent) (uid : ℕ) (fails : Bool) :
    packetsOf (events ++ [.hot uid fails]) = packetsOf events := by
  have hnone : [UncertainEvent.hot uid fails].filterMap packet = [] := rfl
  rw [packetsOf, List.filterMap_append, hnone, List.append_nil, packetsOf]

theorem packetsOf_subset_append (first second : List UncertainEvent) :
    packetsOf first ⊆ packetsOf (first ++ second) := by
  intro packet hpacket
  simp only [packetsOf, List.filterMap_append, List.toFinset_append, Finset.mem_union]
  exact Or.inl hpacket

end UncertainEvent

open UncertainEvent

/-- The stages of a detection in their order. -/
def detectionStages : List XdpProgram :=
  [.xdpPreprocessing, .xdpInputLinear, .xdpInputRelu, .xdpHiddenLinear, .xdpHiddenRelu,
    .xdpOutputLinear]

namespace Deployment

section

variable (frames : ℕ → Frame) (nets : ℕ → Net)

def uncertainStep (deployment : Deployment) : UncertainEvent → Deployment
  | .xdp packet ktime => deployment.step frames nets (.xdp packet ktime)
  | .hot uid fails =>
    let after := hotStep (fun _ ↦ fails) (nets uid) (deployment.runs uid) deployment.nn
    { deployment with
      nn := after.2
      runs := Function.update deployment.runs uid after.1 }

/-- The step is one of the packet. -/
def takenBy (packet : ℕ) (event : UncertainEvent) : Bool := event.packet == some packet

/-- The program that a step of the packet executes, and the line that it prints. -/
def stageSeen (packet : ℕ) (deployment : Deployment) :
    UncertainEvent → Option XdpProgram × Option Line
  | .xdp _ ktime =>
    (deployment.machine.next packet,
      (deployment.machine.outcome frames ⟨packet, ktime, deployment.nn⟩).bind Outcome.printk)
  | .hot _ _ => (none, none)

/-- What the steps of the packet execute and print in a run. -/
def stagesSeen (packet : ℕ) (deployment : Deployment) (events : List UncertainEvent) :
    List (Option XdpProgram × Option Line) :=
  Interleaving.observations (uncertainStep frames nets) (takenBy packet) (stageSeen frames packet)
    deployment events

end

/-- The loader has just attached `xdp_prog`, to whatever maps it found pinned.  Runs of
`hot_updating` may already be under way. -/
structure Attached (deployment : Deployment) : Prop where
  loader : ∃ fails host, loaderMain fails host =
    (⟨some deployment.nn, some (loadedProgs, deployment.machine.flowMap)⟩, true)
  next : ∀ packet, deployment.machine.next packet = some .xdpProg
  held : ∀ uid nnIdx, (deployment.runs uid).held = some nnIdx → ValidIdx nnIdx

/-- The invariant of all runs, in which the packets `past` have taken a step. -/
structure Sound (past : Finset ℕ) (deployment : Deployment) : Prop where
  valid : Valid deployment
  next : ∀ packet, deployment.machine.next packet ≠ some .xdpProg ↔ packet ∈ past
  nnIdx : ∀ f attr, deployment.machine.flowMap.lookup f = some attr → ValidIdx attr.nnIdx
  numPacket : ∀ f attr, deployment.machine.flowMap.lookup f = some attr →
    1 ≤ attr.numPacket.toNat ∧ attr.numPacket.toNat ≤ past.card

end Deployment

/-! ## One execution -/

section

variable {frame : Frame} {f : Flow} {flowMap : FlowMap} {ktime : Ktime} {nn : NnMaps}
  {program : XdpProgram} {attr after : FlowAttribute}

/-- `xdp_prog` on a flow without an entry: the entry that it leaves, if it leaves one. -/
theorem lookup_xdpProg_of_absent (hframe : flowTuple frame = some f)
    (habsent : flowMap.lookup f = none)
    (hafter : (xdpProg ktime nn frame flowMap).flowMap.lookup f = some after) :
    f.monitored = true ∧
      after = (progBody f ktime nn frame (newFlowAttribute frame.tcpHdr ktime)).attr := by
  rw [xdpProg_of_flowTuple_eq_some hframe] at hafter
  cases hhost : f.monitored with
  | false =>
    rw [hhost] at hafter
    exact absurd (hafter.symm.trans habsent) (by simp)
  | true =>
    refine ⟨rfl, ?_⟩
    -- The entry behind the update, before the index is stored.
    have hrecorded {attr : FlowAttribute}
        (hattr : (updateFlowAttribute flowMap f frame.tcpHdr frame.ipHdr.packetLength
          ktime).lookup f = some attr) :
        attr = recordPacket frame.tcpHdr frame.ipHdr.packetLength ktime
          (newFlowAttribute frame.tcpHdr ktime) := by
      rw [eq_recordPacket_of_lookup hattr, habsent]
      rfl
    simp only [hhost, if_true] at hafter
    unfold progBody
    simp only [hhost, if_true]
    cases hcloses : frame.tcpHdr.closes with
    | false =>
      simp only [hcloses, Bool.false_eq_true, if_false, Outcome.passed] at hafter
      exact hrecorded hafter
    | true =>
      simp only [hcloses, if_true] at hafter ⊢
      cases hattr : (updateFlowAttribute flowMap f frame.tcpHdr frame.ipHdr.packetLength
          ktime).lookup f with
      | none =>
        rw [hattr] at hafter
        exact absurd (hafter.symm.trans hattr) (by simp)
      | some attr =>
        rw [hattr] at hafter
        simp only [BpfMap.HashMap.lookup_modify_self, hattr, Option.map_some,
          Option.some.injEq] at hafter
        rw [← hafter, hrecorded hattr]

/-- An entry behind an execution is one that the program found, or one that `xdp_prog` created. -/
theorem lookup_exec_cases (hframe : flowTuple frame = some f)
    (hafter : (exec program ktime nn frame flowMap).flowMap.lookup f = some after) :
    (∃ attr, flowMap.lookup f = some attr ∧
        after = (entryStep f program ktime nn frame attr).attr) ∨
      (program = .xdpProg ∧ f.monitored = true ∧
        after = (progBody f ktime nn frame (newFlowAttribute frame.tcpHdr ktime)).attr) := by
  cases hattr : flowMap.lookup f with
  | some attr =>
    rw [exec_of_lookup_eq_some hframe hattr] at hafter
    have hself :
        (flowMap.modify f fun _ ↦ (entryStep f program ktime nn frame attr).attr).lookup f =
        some (entryStep f program ktime nn frame attr).attr := lookup_modify_const hattr _
    exact Or.inl ⟨attr, rfl, Option.some.inj (hafter.symm.trans hself)⟩
  | none =>
    right
    have hstage (body : FlowAttribute → EntryOutcome) :
        (onEntry frame flowMap body).flowMap.lookup f = none := by
      simp only [onEntry, hframe, hattr, Outcome.passed]
    cases program with
    | xdpProg =>
      obtain ⟨hhost, hnew⟩ := lookup_xdpProg_of_absent hframe hattr hafter
      exact ⟨rfl, hhost, hnew⟩
    | xdpPreprocessing => exact absurd (hafter.symm.trans (hstage _)) (by simp)
    | xdpInputLinear => exact absurd (hafter.symm.trans (hstage _)) (by simp)
    | xdpInputRelu => exact absurd (hafter.symm.trans (hstage _)) (by simp)
    | xdpHiddenLinear => exact absurd (hafter.symm.trans (hstage _)) (by simp)
    | xdpHiddenRelu => exact absurd (hafter.symm.trans (hstage _)) (by simp)
    | xdpOutputLinear => exact absurd (hafter.symm.trans (hstage _)) (by simp)

/-- A program ends here, or its tail call leads to the following stage. -/
theorem next_exec_cases (program : XdpProgram) (ktime : Ktime) (nn : NnMaps) (frame : Frame)
    (flowMap : FlowMap) :
    (exec program ktime nn frame flowMap).exit.next loadedProgs = none ∨
      (exec program ktime nn frame flowMap).exit.next loadedProgs = program.following := by
  obtain ⟨h0, h1, h2, h3, h4, h5⟩ := next_loadedProgs
  have hentry (body : FlowAttribute → EntryOutcome) (next : Option XdpProgram)
      (hbody : ∀ attr, (body attr).exit.next loadedProgs = none ∨
        (body attr).exit.next loadedProgs = next) :
      (onEntry frame flowMap body).exit.next loadedProgs = none ∨
        (onEntry frame flowMap body).exit.next loadedProgs = next := by
    unfold onEntry
    split
    · exact Or.inl rfl
    · split
      · exact Or.inl rfl
      · exact hbody _
  have hnet (attr : FlowAttribute) (body : Net → EntryOutcome) (next : Option XdpProgram)
      (hbody : ∀ net, (body net).exit.next loadedProgs = next) :
      (onNet nn attr body).exit.next loadedProgs = none ∨
        (onNet nn attr body).exit.next loadedProgs = next := by
    unfold onNet
    split
    · exact Or.inl rfl
    · exact Or.inr (hbody _)
  cases program with
  | xdpProg =>
    rcases exit_eq_pass_or_closes ktime nn frame flowMap with hpass | ⟨f, attr, hf, hhost, hcl, hat⟩
    · rw [hpass]
      exact Or.inl rfl
    · rw [exec_xdpProg_of_closes hf hhost hcl ktime nn hat]
      exact Or.inr h0
  | xdpPreprocessing => exact hentry _ _ fun attr ↦ hnet attr _ _ fun _ ↦ h1
  | xdpInputLinear => exact hentry _ _ fun attr ↦ hnet attr _ _ fun _ ↦ h2
  | xdpInputRelu => exact hentry _ _ fun _ ↦ Or.inr h3
  | xdpHiddenLinear => exact hentry _ _ fun attr ↦ hnet attr _ _ fun _ ↦ h4
  | xdpHiddenRelu => exact hentry _ _ fun _ ↦ Or.inr h5
  | xdpOutputLinear => exact hentry _ _ fun attr ↦ hnet attr _ _ fun _ ↦ rfl

/-- A stage that finds its network prints a line exactly if it is the last one. -/
theorem isSome_printk_entryStep {net : Net} (hstage : program ≠ .xdpProg)
    (hnet : BpfMap.ArrayMap.lookup nn.nnParameters attr.nnIdx = some net) :
    (entryStep f program ktime nn frame attr).printk.isSome ↔ program = .xdpOutputLinear := by
  cases program with
  | xdpProg => exact absurd rfl hstage
  | xdpPreprocessing => simp [entryStep, preprocessingBody, onNet_of_lookup_eq_some hnet]
  | xdpInputLinear => simp [entryStep, inputLinearBody, onNet_of_lookup_eq_some hnet]
  | xdpInputRelu => simp [entryStep, inputReluBody]
  | xdpHiddenLinear => simp [entryStep, hiddenLinearBody, onNet_of_lookup_eq_some hnet]
  | xdpHiddenRelu => simp [entryStep, hiddenReluBody]
  | xdpOutputLinear => simp [entryStep, outputLinearBody, onNet_of_lookup_eq_some hnet]

/-- `xdp_prog` on a monitored flow counts the packet. -/
theorem numPacket_progBody (hhost : f.monitored = true) :
    (progBody f ktime nn frame attr).attr.numPacket = attr.numPacket + 1 := by
  simp only [progBody, hhost, if_true]
  split <;> rfl

theorem numPacket_progBody_of_not_monitored (hhost : f.monitored = false) :
    (progBody f ktime nn frame attr).attr = attr := by
  simp only [progBody, hhost, Bool.false_eq_true, if_false]
  rfl

/-- A stored index is the one found, or the active one. -/
theorem nnIdx_progBody_cases :
    (progBody f ktime nn frame attr).attr.nnIdx = attr.nnIdx ∨
      (progBody f ktime nn frame attr).attr.nnIdx = nn.activeIdx := by
  unfold progBody
  split
  · simp only
    split
    · exact Or.inr rfl
    · exact Or.inl rfl
  · exact Or.inl rfl

theorem validIdx_progBody (hactive : ValidIdx nn.activeIdx) (hidx : ValidIdx attr.nnIdx) :
    ValidIdx (progBody f ktime nn frame attr).attr.nnIdx := by
  rcases nnIdx_progBody_cases with hsame | hpinned
  · rw [hsame]
    exact hidx
  · rw [hpinned]
    exact hactive

/-- One packet more, as long as the counter does not wrap. -/
theorem toNat_numPacket_progBody (hhost : f.monitored = true)
    (hfew : attr.numPacket.toNat < 2 ^ 57) :
    (progBody f ktime nn frame attr).attr.numPacket.toNat = attr.numPacket.toNat + 1 := by
  have hone : (1 : S64).toNat = 1 := rfl
  rw [numPacket_progBody hhost, BitVec.toNat_add, hone]
  exact Nat.mod_eq_of_lt (by omega)

theorem numPacket_entryStep_of_stage (hstage : program ≠ .xdpProg) :
    (entryStep f program ktime nn frame attr).attr.numPacket = attr.numPacket :=
  congrArg (fun x : Vector S64 6 ↦ x.get 5) (features_entryStep hstage)

end

/-! ## What holds in every reachable state -/

namespace Deployment

section

variable {frames : ℕ → Frame} {nets : ℕ → Net} {deployment : Deployment} {past : Finset ℕ}

theorem valid_uncertainStep (event : UncertainEvent) (h : Valid deployment) :
    Valid (deployment.uncertainStep frames nets event) := by
  cases event with
  | xdp packet ktime => exact ⟨h.activeIdx, h.held⟩
  | hot uid fails => exact valid_hotStep (fun _ ↦ fails) (nets uid) uid h

/-- What the loader has attached: index 1, the complete table and an empty map. -/
theorem Attached.sound (h : Attached deployment) : Sound ∅ deployment := by
  obtain ⟨fails, host, hloader⟩ := h.loader
  have hmaps : deployment.nn.activeIdx = initialNnIdx ∧
      deployment.machine.flowMap = BpfMap.HashMap.empty := by
    unfold loaderMain at hloader
    split_ifs at hloader <;> simp at hloader
    obtain ⟨hnn, hmap⟩ := hloader
    rw [← hnn, NnMaps.activeIdx_setIdx]
    exact ⟨rfl, hmap.symm⟩
  have hempty (f : Flow) : deployment.machine.flowMap.lookup f = none := by
    rw [hmaps.2]
    rfl
  refine ⟨⟨?_, h.held⟩, ?_, ?_, ?_⟩
  · rw [hmaps.1]
    exact Or.inr rfl
  · intro packet
    simp [h.next packet]
  · intro f attr hattr
    rw [hempty f] at hattr
    cases hattr
  · intro f attr hattr
    rw [hempty f] at hattr
    cases hattr

theorem sound_hot (uid : ℕ) (fails : Bool) (h : Sound past deployment) :
    Sound past (deployment.uncertainStep frames nets (.hot uid fails)) :=
  ⟨valid_uncertainStep _ h.valid, h.next, h.nnIdx, h.numPacket⟩

/-- A turn of a packet that has a program to run. -/
theorem machine_step_xdp {packet : ℕ} {program : XdpProgram} (ktime : Ktime)
    (hnext : deployment.machine.next packet = some program) :
    (deployment.step frames nets (.xdp packet ktime)).machine =
      { flowMap := (exec program ktime deployment.nn (frames packet)
          deployment.machine.flowMap).flowMap
        next := Function.update deployment.machine.next packet ((exec program ktime deployment.nn
          (frames packet) deployment.machine.flowMap).exit.next loadedProgs) } := by
  have hturn : deployment.machine.next (⟨packet, ktime, deployment.nn⟩ : Turn).packet =
      some program := hnext
  exact Machine.step_of_next_eq_some loadedProgs hturn

theorem machine_step_xdp_of_none {packet : ℕ} (ktime : Ktime)
    (hnext : deployment.machine.next packet = none) :
    (deployment.step frames nets (.xdp packet ktime)).machine = deployment.machine := by
  have hturn : deployment.machine.next (⟨packet, ktime, deployment.nn⟩ : Turn).packet = none :=
    hnext
  exact Machine.step_of_next_eq_none loadedProgs hturn

/-- The packets that have begun behind a turn of `packet`. -/
theorem next_step_ne_xdpProg (h : Sound past deployment) (packet : ℕ) (ktime : Ktime)
    (other : ℕ) :
    (deployment.step frames nets (.xdp packet ktime)).machine.next other ≠ some .xdpProg ↔
      other ∈ insert packet past := by
  rw [Finset.mem_insert]
  rcases eq_or_ne other packet with rfl | hne
  · refine ⟨fun _ ↦ Or.inl rfl, fun _ ↦ ?_⟩
    cases hnext : deployment.machine.next other with
    | none =>
      rw [machine_step_xdp_of_none ktime hnext, hnext]
      simp
    | some program =>
      rw [machine_step_xdp ktime hnext]
      simp only [Function.update_self]
      rcases next_exec_cases program ktime deployment.nn (frames other)
        deployment.machine.flowMap with hend | hfollowing
      · rw [hend]
        simp
      · rw [hfollowing]
        exact program.following_ne_xdpProg
  · have hkept : (deployment.step frames nets (.xdp packet ktime)).machine.next other =
        deployment.machine.next other := Machine.next_step_of_ne loadedProgs hne
    rw [hkept, h.next other]
    exact ⟨Or.inr, fun hor ↦ hor.resolve_left hne⟩

/-- An entry behind a turn: an old one, or one of the packet's flow. -/
theorem lookup_step_cases (packet : ℕ) (ktime : Ktime) {f : Flow} {after : FlowAttribute}
    (hafter : (deployment.step frames nets (.xdp packet ktime)).machine.flowMap.lookup f =
      some after) :
    deployment.machine.flowMap.lookup f = some after ∨
      ∃ program, deployment.machine.next packet = some program ∧
        flowTuple (frames packet) = some f ∧
        (exec program ktime deployment.nn (frames packet) deployment.machine.flowMap).flowMap.lookup
          f = some after := by
  cases hown : Machine.ofFlow frames f ⟨packet, ktime, deployment.nn⟩ with
  | false =>
    have hkept : (deployment.step frames nets (.xdp packet ktime)).machine.flowMap.lookup f =
        deployment.machine.flowMap.lookup f := Machine.lookup_step_of_not_ofFlow loadedProgs hown
    exact Or.inl (hkept.symm.trans hafter)
  | true =>
    cases hnext : deployment.machine.next packet with
    | none =>
      rw [machine_step_xdp_of_none ktime hnext] at hafter
      exact Or.inl hafter
    | some program =>
      rw [machine_step_xdp ktime hnext] at hafter
      exact Or.inr ⟨program, rfl, by simpa [Machine.ofFlow] using hown, hafter⟩

variable (frames nets) in
theorem sound_xdp {packet : ℕ} {ktime : Ktime} (hfew : (insert packet past).card < 2 ^ 57)
    (h : Sound past deployment) :
    Sound (insert packet past) (deployment.step frames nets (.xdp packet ktime)) := by
  have hle : past.card ≤ (insert packet past).card :=
    Finset.card_le_card (Finset.subset_insert packet past)
  have hentry : ∀ f after,
      (deployment.step frames nets (.xdp packet ktime)).machine.flowMap.lookup f = some after →
      ValidIdx after.nnIdx ∧ 1 ≤ after.numPacket.toNat ∧
        after.numPacket.toNat ≤ (insert packet past).card := by
    intro f after hafter
    rcases lookup_step_cases packet ktime hafter with hold | ⟨program, hnext, hframe, hexec⟩
    · obtain ⟨hone, hcount⟩ := h.numPacket f after hold
      exact ⟨h.nnIdx f after hold, hone, hcount.trans hle⟩
    · rcases eq_or_ne program .xdpProg with rfl | hstage
      · -- The packet has taken no step before.
        have hnew : packet ∉ past := fun hmem ↦ (h.next packet).mpr hmem hnext
        have hcard : (insert packet past).card = past.card + 1 := Finset.card_insert_of_notMem hnew
        have hcount {attr : FlowAttribute} (hhost : f.monitored = true)
            (hidx : ValidIdx attr.nnIdx) (hattr : attr.numPacket.toNat ≤ past.card) :
            ValidIdx (progBody f ktime deployment.nn (frames packet) attr).attr.nnIdx ∧
              1 ≤ (progBody f ktime deployment.nn (frames packet) attr).attr.numPacket.toNat ∧
              (progBody f ktime deployment.nn (frames packet) attr).attr.numPacket.toNat ≤
                (insert packet past).card := by
          rw [toNat_numPacket_progBody hhost (by omega)]
          exact ⟨validIdx_progBody h.valid.activeIdx hidx, by omega, by omega⟩
        rcases lookup_exec_cases hframe hexec with ⟨attr, hattr, rfl⟩ | ⟨-, hhost, rfl⟩
        · obtain ⟨hone, hbound⟩ := h.numPacket f attr hattr
          cases hhost : f.monitored with
          | true => exact hcount hhost (h.nnIdx f attr hattr) hbound
          | false =>
            rw [entryStep, numPacket_progBody_of_not_monitored hhost]
            exact ⟨h.nnIdx f attr hattr, hone, hbound.trans hle⟩
        · exact hcount hhost (Or.inl rfl) (Nat.zero_le _)
      · rcases lookup_exec_cases hframe hexec with ⟨attr, hattr, rfl⟩ | ⟨hprog, -⟩
        · obtain ⟨hone, hbound⟩ := h.numPacket f attr hattr
          rw [nnIdx_entryStep_of_stage hstage, numPacket_entryStep_of_stage hstage]
          exact ⟨h.nnIdx f attr hattr, hone, hbound.trans hle⟩
        · exact absurd hprog hstage
  refine ⟨⟨h.valid.activeIdx, h.valid.held⟩, next_step_ne_xdpProg h packet ktime, ?_, ?_⟩
  · intro f attr hattr
    exact (hentry f attr hattr).1
  · intro f attr hattr
    exact (hentry f attr hattr).2

variable (frames nets) in
theorem sound_run (hattached : Attached deployment) (events : List UncertainEvent)
    (hfew : (packetsOf events).card < 2 ^ 57) :
    Sound (packetsOf events)
      (Interleaving.run (uncertainStep frames nets) deployment events) := by
  induction events using List.reverseRecOn with
  | nil => exact hattached.sound
  | append_singleton events event ih =>
    have hsub := Finset.card_le_card (packetsOf_subset_append events [event])
    have hinit := ih (lt_of_le_of_lt hsub hfew)
    rw [Interleaving.run_concat]
    cases event with
    | hot uid fails =>
      rw [packetsOf_concat_hot]
      exact sound_hot uid fails hinit
    | xdp packet ktime =>
      rw [packetsOf_concat_xdp] at hfew ⊢
      exact sound_xdp frames nets hfew hinit

/-! ## The stages of one detection -/

/-- Behind the first program of a rest of the stages comes the rest behind it. -/
theorem following_of_suffix {program : XdpProgram} {rest : List XdpProgram}
    (hrest : program :: rest <:+ detectionStages) :
    program ≠ .xdpProg ∧ program.following = rest.head? ∧ rest <:+ detectionStages := by
  have htail : rest <:+ detectionStages := (List.suffix_cons program rest).trans hrest
  rw [← List.mem_tails] at hrest
  simp only [detectionStages, List.tails, List.mem_cons, List.not_mem_nil, or_false,
    reduceCtorEq] at hrest
  rcases hrest with h | h | h | h | h | h <;>
    obtain ⟨rfl, rfl⟩ := List.cons.inj h <;> exact ⟨by decide, rfl, htail⟩

/-- The detection of `packet` in flow `f` has the stages `rest` before it. -/
structure Detecting (frames : ℕ → Frame) (f : Flow) (packet : ℕ) (rest : List XdpProgram)
    (deployment : Deployment) : Prop where
  frame : flowTuple (frames packet) = some f
  entry : (deployment.machine.flowMap.lookup f).isSome
  next : deployment.machine.next packet = rest.head?
  suffix : rest <:+ detectionStages

/-- The steps of others leave the detection where it is. -/
theorem detecting_step_of_ne {f : Flow} {packet : ℕ} {rest : List XdpProgram}
    {event : UncertainEvent} (hother : takenBy packet event = false)
    (h : Detecting frames f packet rest deployment) :
    Detecting frames f packet rest (deployment.uncertainStep frames nets event) := by
  cases event with
  | hot uid fails => exact ⟨h.frame, h.entry, h.next, h.suffix⟩
  | xdp other ktime =>
    have hne : packet ≠ other := by
      rintro rfl
      simp [takenBy, UncertainEvent.packet] at hother
    have hkept : (deployment.step frames nets (.xdp other ktime)).machine.next packet =
        deployment.machine.next packet := Machine.next_step_of_ne loadedProgs hne
    exact ⟨h.frame, Machine.isSome_lookup_step loadedProgs h.entry, hkept.trans h.next, h.suffix⟩

variable (nets) in
/-- The packet's own step executes the next stage, and prints in the last one. -/
theorem detecting_step_self {f : Flow} {packet : ℕ} {program : XdpProgram}
    {rest : List XdpProgram} (ktime : Ktime) (hsound : Sound past deployment)
    (h : Detecting frames f packet (program :: rest) deployment) :
    Detecting frames f packet rest (deployment.uncertainStep frames nets (.xdp packet ktime)) ∧
      ∃ line, stageSeen frames packet deployment (.xdp packet ktime) = (some program, line) ∧
        (line.isSome ↔ program = .xdpOutputLinear) := by
  obtain ⟨hstage, hfollowing, hrest⟩ := following_of_suffix h.suffix
  obtain ⟨attr, hattr⟩ := Option.isSome_iff_exists.mp h.entry
  have hnext : deployment.machine.next packet = some program := h.next
  obtain ⟨net, hnet⟩ :
      ∃ net, BpfMap.ArrayMap.lookup deployment.nn.nnParameters attr.nnIdx = some net :=
    ⟨_, BpfMap.ArrayMap.lookup_eq_some_of_lt _ (hsound.nnIdx f attr hattr).lt⟩
  have hexec := exec_of_lookup_eq_some h.frame hattr program ktime deployment.nn
  constructor
  · refine ⟨h.frame, Machine.isSome_lookup_step loadedProgs h.entry, ?_, hrest⟩
    simp only [uncertainStep]
    rw [machine_step_xdp ktime hnext, hexec]
    simp only [Function.update_self, EntryOutcome.inMap]
    rw [next_entryStep hstage hnet, hfollowing]
  · have hturn : deployment.machine.next (⟨packet, ktime, deployment.nn⟩ : Turn).packet =
        some program := hnext
    refine ⟨(entryStep f program ktime deployment.nn (frames packet) attr).printk, ?_, ?_⟩
    · simp only [stageSeen, hnext]
      rw [Machine.outcome_of_next_eq_some hturn, Option.bind_some]
      exact congrArg (fun outcome : Outcome ↦ (some program, outcome.printk)) hexec
    · exact isSome_printk_entryStep hstage hnet

variable (nets) in
/-- A detection at its end executes nothing. -/
theorem detecting_step_end {f : Flow} {packet : ℕ} (ktime : Ktime)
    (h : Detecting frames f packet [] deployment) :
    Detecting frames f packet [] (deployment.uncertainStep frames nets (.xdp packet ktime)) ∧
      stageSeen frames packet deployment (.xdp packet ktime) = (none, none) := by
  have hnext : deployment.machine.next packet = none := h.next
  constructor
  · refine ⟨h.frame, Machine.isSome_lookup_step loadedProgs h.entry, ?_, h.suffix⟩
    simp only [uncertainStep]
    rw [machine_step_xdp_of_none ktime hnext]
    exact hnext
  · have hturn : deployment.machine.next (⟨packet, ktime, deployment.nn⟩ : Turn).packet = none :=
      hnext
    simp only [stageSeen, hnext, Machine.outcome, Option.map_none, Option.bind_none]

/-- In any run the packet executes its remaining stages in their order, and prints in the last
one. -/
theorem stagesSeen_of_detecting {f : Flow} {packet : ℕ} {events : List UncertainEvent}
    {rest : List XdpProgram}
    (hsound : ∀ earlier later, events = earlier ++ later →
      ∃ past, Sound past (Interleaving.run (uncertainStep frames nets) deployment earlier))
    (h : Detecting frames f packet rest deployment) :
    (stagesSeen frames nets packet deployment events).filterMap Prod.fst =
        rest.take (stagesSeen frames nets packet deployment events).length ∧
      ∀ seen ∈ stagesSeen frames nets packet deployment events,
        seen.2.isSome ↔ seen.1 = some .xdpOutputLinear := by
  induction events generalizing deployment rest with
  | nil => exact ⟨rfl, fun _ hseen ↦ absurd hseen List.not_mem_nil⟩
  | cons event events ih =>
    have hlater : ∀ earlier later, events = earlier ++ later → ∃ past, Sound past
        (Interleaving.run (uncertainStep frames nets)
          (deployment.uncertainStep frames nets event) earlier) := by
      intro earlier later hsplit
      exact hsound (event :: earlier) later (by rw [hsplit, List.cons_append])
    cases hown : takenBy packet event with
    | false =>
      have hcons : stagesSeen frames nets packet deployment (event :: events) =
          stagesSeen frames nets packet (deployment.uncertainStep frames nets event) events := by
        simp only [stagesSeen, Interleaving.observations, hown, Bool.false_eq_true, if_false]
      rw [hcons]
      exact ih hlater (detecting_step_of_ne hown h)
    | true =>
      have hcons : stagesSeen frames nets packet deployment (event :: events) =
          stageSeen frames packet deployment event ::
            stagesSeen frames nets packet (deployment.uncertainStep frames nets event) events := by
        simp only [stagesSeen, Interleaving.observations, hown, if_true]
      rw [hcons]
      obtain ⟨ktime, rfl⟩ : ∃ ktime, event = .xdp packet ktime := by
        cases event with
        | hot uid fails => simp [takenBy, UncertainEvent.packet] at hown
        | xdp other ktime =>
          simp only [takenBy, UncertainEvent.packet, beq_iff_eq, Option.some.injEq] at hown
          exact ⟨ktime, by rw [hown]⟩
      cases rest with
      | nil =>
        obtain ⟨hafter, hseen⟩ := detecting_step_end nets ktime h
        obtain ⟨hprograms, hlines⟩ := ih hlater hafter
        rw [hseen, List.filterMap_cons_none rfl, hprograms]
        refine ⟨by simp, ?_⟩
        intro seen hmem
        rcases List.mem_cons.mp hmem with rfl | hmem
        · simp
        · exact hlines seen hmem
      | cons program rest =>
        obtain ⟨past, hnow⟩ := hsound [] _ rfl
        rw [Interleaving.run_nil] at hnow
        obtain ⟨hafter, line, hseen, hline⟩ := detecting_step_self nets ktime hnow h
        obtain ⟨hprograms, hlines⟩ := ih hlater hafter
        rw [hseen, List.length_cons, List.take_succ_cons, List.filterMap_cons, hprograms]
        refine ⟨rfl, ?_⟩
        intro seen hmem
        rcases List.mem_cons.mp hmem with rfl | hmem
        · simpa using hline
        · exact hlines seen hmem

/-! ## The label -/

/-- Where exactly the executions of one program print, there are as many lines as such
executions. -/
theorem length_filterMap_snd {program : XdpProgram} {seen : List (Option XdpProgram × Option Line)}
    (h : ∀ stage ∈ seen, stage.2.isSome ↔ stage.1 = some program) :
    (seen.filterMap Prod.snd).length = (seen.filterMap Prod.fst).count program := by
  induction seen with
  | nil => rfl
  | cons stage seen ih =>
    have hrest := ih fun other hother ↦ h other (List.mem_cons_of_mem _ hother)
    have hstage := h stage List.mem_cons_self
    obtain ⟨executed, line⟩ := stage
    cases executed with
    | none =>
      have hnone : line = none := by simpa using hstage
      rw [hnone, List.filterMap_cons_none rfl, List.filterMap_cons_none rfl, hrest]
    | some other =>
      simp only [List.filterMap_cons]
      cases line with
      | none =>
        have hne : other ≠ program := by simpa using hstage
        rw [hrest, List.count_cons_of_ne hne]
      | some line =>
        have heq : other = program := by simpa using hstage
        rw [List.length_cons, hrest, heq, List.count_cons_self]

theorem count_take_detectionStages (turns : ℕ) :
    (detectionStages.take turns).count .xdpOutputLinear = if 6 ≤ turns then 1 else 0 := by
  rcases lt_or_ge turns 6 with hlt | hge
  · interval_cases turns <;> decide
  · rw [List.take_of_length_le hge, if_pos hge]
    decide

end

/-- `xdp_prog` of a closing packet that leaves an entry starts a detection. -/
theorem detecting_of_closes {frames : ℕ → Frame} {nets : ℕ → Net} {deployment : Deployment}
    {f : Flow} {packet : ℕ} {ktime : Ktime} (hframe : flowTuple (frames packet) = some f)
    (hhost : f.monitored = true) (hcloses : (frames packet).tcpHdr.closes = true)
    (hnext : deployment.machine.next packet = some .xdpProg)
    (hentry : ((updateFlowAttribute deployment.machine.flowMap f (frames packet).tcpHdr
      (frames packet).ipHdr.packetLength ktime).lookup f).isSome) :
    Detecting frames f packet detectionStages
      (deployment.uncertainStep frames nets (.xdp packet ktime)) := by
  obtain ⟨attr, hattr⟩ := Option.isSome_iff_exists.mp hentry
  have hexec := exec_xdpProg_of_closes hframe hhost hcloses ktime deployment.nn hattr
  have hmachine : (deployment.step frames nets (.xdp packet ktime)).machine = _ :=
    machine_step_xdp ktime hnext
  rw [hexec] at hmachine
  simp only [EntryOutcome.inMap] at hmachine
  refine ⟨hframe, ?_, ?_, List.suffix_rfl⟩
  · simp only [uncertainStep]
    rw [hmachine]
    simp [hattr]
  · simp only [uncertainStep]
    rw [hmachine]
    simp only [Function.update_self]
    exact next_loadedProgs.1

/-- Once `xdp_prog` of a closing packet has left an entry, the packet's steps execute the six stages
in their order, whatever comes in between, and print one line, in the last stage; the entry stays
and has counted a packet. -/
theorem detection_reaches_label {frames : ℕ → Frame} {nets : ℕ → Net} {deployment : Deployment}
    (hattached : Attached deployment) {f : Flow} {packet : ℕ}
    (hframe : flowTuple (frames packet) = some f) (hhost : f.monitored = true)
    (hcloses : (frames packet).tcpHdr.closes = true)
    (before during : List UncertainEvent) (ktime : Ktime) (hnew : packet ∉ packetsOf before)
    (hentry : ((updateFlowAttribute
      (Interleaving.run (uncertainStep frames nets) deployment before).machine.flowMap f
      (frames packet).tcpHdr (frames packet).ipHdr.packetLength ktime).lookup f).isSome)
    (hfew : (packetsOf (before ++ .xdp packet ktime :: during)).card < 2 ^ 57) :
    let started := Interleaving.run (uncertainStep frames nets) deployment
      (before ++ [.xdp packet ktime])
    let seen := stagesSeen frames nets packet started during
    seen.filterMap Prod.fst = detectionStages.take seen.length ∧
      (seen.filterMap Prod.snd).length = (if 6 ≤ seen.length then 1 else 0) ∧
      (∀ stage ∈ seen, stage.2.isSome ↔ stage.1 = some .xdpOutputLinear) ∧
      ∃ attr,
        (Interleaving.run (uncertainStep frames nets) started during).machine.flowMap.lookup f =
          some attr ∧ 1 ≤ attr.numPacket.toInt := by
  intro started seen
  have hsplit : before ++ .xdp packet ktime :: during =
      (before ++ [.xdp packet ktime]) ++ during := by simp
  have hsound : ∀ earlier later, during = earlier ++ later →
      ∃ past, Sound past (Interleaving.run (uncertainStep frames nets) started earlier) := by
    intro earlier later hduring
    have hprefix : packetsOf ((before ++ [.xdp packet ktime]) ++ earlier) ⊆
        packetsOf (before ++ .xdp packet ktime :: during) := by
      rw [hsplit, hduring, ← List.append_assoc]
      exact packetsOf_subset_append _ _
    have hrun := sound_run frames nets hattached ((before ++ [.xdp packet ktime]) ++ earlier)
      (lt_of_le_of_lt (Finset.card_le_card hprefix) hfew)
    rw [Interleaving.run_append] at hrun
    exact ⟨_, hrun⟩
  have hbefore : Sound (packetsOf before)
      (Interleaving.run (uncertainStep frames nets) deployment before) := by
    apply sound_run frames nets hattached
    exact lt_of_le_of_lt (Finset.card_le_card (packetsOf_subset_append before _)) hfew
  have hnext :
      (Interleaving.run (uncertainStep frames nets) deployment before).machine.next packet =
      some .xdpProg := by
    by_contra hbegun
    exact hnew ((hbefore.next packet).mp hbegun)
  have hdetecting : Detecting frames f packet detectionStages started := by
    have hconcat : started = (Interleaving.run (uncertainStep frames nets) deployment
        before).uncertainStep frames nets (.xdp packet ktime) := Interleaving.run_concat _ _ _ _
    rw [hconcat]
    exact detecting_of_closes hframe hhost hcloses hnext hentry
  obtain ⟨hprograms, hlines⟩ := stagesSeen_of_detecting hsound hdetecting
  refine ⟨hprograms, ?_, hlines, ?_⟩
  · rw [length_filterMap_snd hlines, hprograms]
    exact count_take_detectionStages _
  · have hstays : ((Interleaving.run (uncertainStep frames nets) started
        during).machine.flowMap.lookup f).isSome := by
      have hstep : ∀ (state : Deployment) event, (state.machine.flowMap.lookup f).isSome →
          ((state.uncertainStep frames nets event).machine.flowMap.lookup f).isSome := by
        intro state event hsome
        cases event with
        | hot uid fails => exact hsome
        | xdp other ktime => exact Machine.isSome_lookup_step loadedProgs hsome
      exact Interleaving.run_invariant (uncertainStep frames nets) hstep hdetecting.entry during
    obtain ⟨attr, hattr⟩ := Option.isSome_iff_exists.mp hstays
    have hrun := sound_run frames nets hattached (before ++ .xdp packet ktime :: during) hfew
    rw [hsplit, Interleaving.run_append] at hrun
    rw [hsplit] at hfew
    obtain ⟨hone, hcount⟩ := hrun.numPacket f attr hattr
    have hint : attr.numPacket.toInt = attr.numPacket.toNat :=
      BitVec.toInt_eq_toNat_of_lt (by omega)
    refine ⟨attr, hattr, ?_⟩
    omega

theorem attached_attached : Attached attached where
  loader := ⟨fun _ ↦ false, Host.fresh, loaderMain_of_success Host.fresh⟩
  next := fun _ ↦ rfl
  held := by
    intro uid nnIdx hheld
    cases hheld

/-- The rest of a detection, with a run of `hot_updating` whose lookup has failed and another
closing packet of the flow in between. -/
def crowdedDetection : List UncertainEvent :=
  [.hot 0 false, .xdp 0 ⟨9, 9, 9, 9, 9⟩, .xdp 1 ⟨9, 9, 9, 9, 9⟩, .xdp 0 ⟨9, 9, 9, 9, 9⟩,
    .xdp 1 ⟨9, 9, 9, 9, 9⟩, .hot 0 true, .xdp 0 ⟨9, 9, 9, 9, 9⟩, .xdp 0 ⟨9, 9, 9, 9, 9⟩,
    .xdp 0 ⟨9, 9, 9, 9, 9⟩, .xdp 0 ⟨9, 9, 9, 9, 9⟩]

theorem detection_reaches_label_crowded :
    ((stagesSeen closingFrames shippedNets 0 (Interleaving.run
      (uncertainStep closingFrames shippedNets) attached
        ([.hot 0 true] ++ [.xdp 0 ⟨9, 9, 9, 9, 9⟩])) crowdedDetection).filterMap
      Prod.snd).length = 1 := by
  have hframe : flowTuple (closingFrames 0) = some (hostFlow 7) := flowTuple_hostFrame 7 40 true
  have hcloses : (closingFrames 0).tcpHdr.closes = true := closes_hostFrame 7 40 true
  have hentry : ((updateFlowAttribute
      (Interleaving.run (uncertainStep closingFrames shippedNets) attached
        [.hot 0 true]).machine.flowMap (hostFlow 7) (closingFrames 0).tcpHdr
      (closingFrames 0).ipHdr.packetLength ⟨9, 9, 9, 9, 9⟩).lookup (hostFlow 7)).isSome := by
    decide +kernel
  have hnew : 0 ∉ packetsOf [.hot 0 true] := by decide
  have hfew : (packetsOf ([.hot 0 true] ++ .xdp 0 ⟨9, 9, 9, 9, 9⟩ :: crowdedDetection)).card <
      2 ^ 57 := by decide
  obtain ⟨-, hlines, -⟩ := detection_reaches_label attached_attached hframe (monitored_hostFlow 7)
    hcloses [.hot 0 true] crowdedDetection ⟨9, 9, 9, 9, 9⟩ hnew hentry hfew
  rw [hlines]
  rfl

end Deployment

end NNeBPF

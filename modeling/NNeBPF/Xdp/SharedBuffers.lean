import NNeBPF.Xdp.Interleaved

/-!
# Two detections of one flow

The buffers `hidden1` and `hidden2` belong to the entry of a flow and not to a packet, so two
closing packets of one flow that are processed at the same time work on the same cells.  A
detection prints the label of the features that it read as long as no other packet of the flow
rewrites cells that the detection still has to read; otherwise it may print another label.
-/

namespace NNeBPF

open Mlp

/-! ## Which program writes which buffer -/

namespace XdpProgram

def writesHidden1 : XdpProgram → Bool
  | .xdpInputLinear | .xdpInputRelu | .xdpOutputLinear => true
  | _ => false

def writesHidden2 : XdpProgram → Bool
  | .xdpPreprocessing | .xdpHiddenLinear | .xdpHiddenRelu => true
  | _ => false

/-- A step of `other` rewrites what a detection that runs `own` next has to read.  Once a linear
layer has filled its output, another pass of the relu behind it does no harm. -/
def clobbers (other own : XdpProgram) : Bool :=
  match own with
  | .xdpProg => false
  | .xdpPreprocessing => other == .xdpProg
  | .xdpInputLinear => other.writesHidden2
  | .xdpInputRelu | .xdpHiddenLinear => other.writesHidden1 && other != .xdpInputRelu
  | .xdpHiddenRelu | .xdpOutputLinear => other.writesHidden2 && other != .xdpHiddenRelu

/-- The stage that the tail call at the end of a stage leads to. -/
def following : XdpProgram → Option XdpProgram
  | .xdpProg => some .xdpPreprocessing
  | .xdpPreprocessing => some .xdpInputLinear
  | .xdpInputLinear => some .xdpInputRelu
  | .xdpInputRelu => some .xdpHiddenLinear
  | .xdpHiddenLinear => some .xdpHiddenRelu
  | .xdpHiddenRelu => some .xdpOutputLinear
  | .xdpOutputLinear => none

theorem following_ne_xdpProg (program : XdpProgram) : program.following ≠ some .xdpProg := by
  cases program <;> decide

end XdpProgram

section

variable {f : Flow} {ktime : Ktime} {nn : NnMaps} {frame : Frame} {attr : FlowAttribute}
  {program : XdpProgram}

/-- A field that the entry keeps and that the body keeps for every network is kept by `onNet`. -/
theorem onNet_keeps {Field : Type*} (field : FlowAttribute → Field) {body : Net → EntryOutcome}
    (hbody : ∀ net, field (body net).attr = field attr) :
    field (onNet nn attr body).attr = field attr := by
  unfold onNet
  split
  · rfl
  · exact hbody _

theorem hidden1_entryStep (h : program.writesHidden1 = false) :
    (entryStep f program ktime nn frame attr).attr.hidden1 = attr.hidden1 := by
  cases program with
  | xdpProg =>
    simp only [entryStep, progBody]
    split_ifs <;> rfl
  | xdpPreprocessing => exact onNet_keeps FlowAttribute.hidden1 fun _ ↦ rfl
  | xdpHiddenLinear => exact onNet_keeps FlowAttribute.hidden1 fun _ ↦ rfl
  | xdpHiddenRelu => rfl
  | xdpInputLinear => cases h
  | xdpInputRelu => cases h
  | xdpOutputLinear => cases h

theorem hidden2_entryStep (h : program.writesHidden2 = false) :
    (entryStep f program ktime nn frame attr).attr.hidden2 = attr.hidden2 := by
  cases program with
  | xdpProg =>
    simp only [entryStep, progBody]
    split_ifs <;> rfl
  | xdpInputLinear => exact onNet_keeps FlowAttribute.hidden2 fun _ ↦ rfl
  | xdpInputRelu => rfl
  | xdpOutputLinear => exact onNet_keeps FlowAttribute.hidden2 fun _ ↦ rfl
  | xdpPreprocessing => cases h
  | xdpHiddenLinear => cases h
  | xdpHiddenRelu => cases h

/-- Only `xdp_prog` changes the features. -/
theorem features_entryStep (h : program ≠ .xdpProg) :
    (entryStep f program ktime nn frame attr).attr.features = attr.features := by
  cases program with
  | xdpProg => exact absurd rfl h
  | xdpPreprocessing => exact onNet_keeps FlowAttribute.features fun _ ↦ rfl
  | xdpInputLinear => exact onNet_keeps FlowAttribute.features fun _ ↦ rfl
  | xdpInputRelu => rfl
  | xdpHiddenLinear => exact onNet_keeps FlowAttribute.features fun _ ↦ rfl
  | xdpHiddenRelu => rfl
  | xdpOutputLinear => exact onNet_keeps FlowAttribute.features fun _ ↦ rfl

/-- Only `xdp_prog` changes the index of an entry. -/
theorem nnIdx_entryStep_of_stage (h : program ≠ .xdpProg) :
    (entryStep f program ktime nn frame attr).attr.nnIdx = attr.nnIdx := by
  cases program with
  | xdpProg => exact absurd rfl h
  | xdpPreprocessing => exact onNet_keeps FlowAttribute.nnIdx fun _ ↦ rfl
  | xdpInputLinear => exact onNet_keeps FlowAttribute.nnIdx fun _ ↦ rfl
  | xdpInputRelu => rfl
  | xdpHiddenLinear => exact onNet_keeps FlowAttribute.nnIdx fun _ ↦ rfl
  | xdpHiddenRelu => rfl
  | xdpOutputLinear => exact onNet_keeps FlowAttribute.nnIdx fun _ ↦ rfl

/-- An entry with the active index keeps it: `xdp_prog` stores this index again. -/
theorem nnIdx_entryStep (hidx : attr.nnIdx = nn.activeIdx) :
    (entryStep f program ktime nn frame attr).attr.nnIdx = nn.activeIdx := by
  rcases eq_or_ne program .xdpProg with rfl | hstage
  · simp only [entryStep, progBody]
    split_ifs
    · rfl
    · exact hidx
    · exact hidx
  · exact (nnIdx_entryStep_of_stage hstage).trans hidx

/-- A stage that finds its network hands over to the following stage. -/
theorem next_entryStep {net : Net} (hstage : program ≠ .xdpProg)
    (hnet : BpfMap.ArrayMap.lookup nn.nnParameters attr.nnIdx = some net) :
    (entryStep f program ktime nn frame attr).exit.next loadedProgs = program.following := by
  obtain ⟨-, h1, h2, h3, h4, h5⟩ := next_loadedProgs
  cases program with
  | xdpProg => exact absurd rfl hstage
  | xdpPreprocessing =>
    rw [entryStep, preprocessingBody, onNet_of_lookup_eq_some hnet]
    exact h1
  | xdpInputLinear =>
    rw [entryStep, inputLinearBody, onNet_of_lookup_eq_some hnet]
    exact h2
  | xdpInputRelu => exact h3
  | xdpHiddenLinear =>
    rw [entryStep, hiddenLinearBody, onNet_of_lookup_eq_some hnet]
    exact h4
  | xdpHiddenRelu => exact h5
  | xdpOutputLinear =>
    rw [entryStep, outputLinearBody, onNet_of_lookup_eq_some hnet]
    rfl

end

/-! ## What the live cells hold -/

/-- The cells that a detection with program `own` next reads hold the intermediate result for the
features `x`.  The relu stages may already have run once. -/
def Carries (net : Net) (x : Vector S64 6) (own : XdpProgram) (attr : FlowAttribute) : Prop :=
  match own with
  | .xdpProg => False
  | .xdpPreprocessing => attr.features = x
  | .xdpInputLinear => cells attr.hidden2 6 features_fit = scaled net x
  | .xdpInputRelu =>
    maxZero ∘ cells attr.hidden1 32 activations_fit = maxZero ∘ preActivation1 net x
  | .xdpHiddenLinear => cells attr.hidden1 32 activations_fit = maxZero ∘ preActivation1 net x
  | .xdpHiddenRelu =>
    maxZero ∘ cells attr.hidden2 32 activations_fit = maxZero ∘ preActivation2 net x
  | .xdpOutputLinear => cells attr.hidden2 32 activations_fit = maxZero ∘ preActivation2 net x

theorem maxZero_comp_maxZero {n : ℕ} (values : Fin n → S32) :
    maxZero ∘ (maxZero ∘ values) = maxZero ∘ values := by
  funext i
  exact maxZero_maxZero (values i)

theorem cells_inputRelu (attr : FlowAttribute) :
    cells attr.inputRelu.hidden1 32 le_rfl = maxZero ∘ cells attr.hidden1 32 le_rfl := by
  have hrelu : attr.inputRelu.hidden1 = Vector.ofFn (maxZero ∘ cells attr.hidden1 32 le_rfl) :=
    relu_eq_ofFn attr.hidden1
  rw [hrelu, cells_ofFn]

theorem cells_hiddenRelu (attr : FlowAttribute) :
    cells attr.hiddenRelu.hidden2 32 le_rfl = maxZero ∘ cells attr.hidden2 32 le_rfl := by
  have hrelu : attr.hiddenRelu.hidden2 = Vector.ofFn (maxZero ∘ cells attr.hidden2 32 le_rfl) :=
    relu_eq_ofFn attr.hidden2
  rw [hrelu, cells_ofFn]

section

variable {f : Flow} {ktime : Ktime} {nn : NnMaps} {frame : Frame} {attr : FlowAttribute}
  {net : Net} {x : Vector S64 6}

/-- A stage turns the intermediate result that it reads into the one that the next stage reads. -/
theorem carries_following {own next : XdpProgram}
    (hnet : BpfMap.ArrayMap.lookup nn.nnParameters attr.nnIdx = some net)
    (hnext : own.following = some next) (h : Carries net x own attr) :
    Carries net x next (entryStep f own ktime nn frame attr).attr := by
  cases own with
  | xdpProg => exact h.elim
  | xdpPreprocessing =>
    cases hnext
    have hx : attr.features = x := h
    subst hx
    rw [entryStep, preprocessingBody, onNet_of_lookup_eq_some hnet]
    exact cells_standardScaler attr.features attr.hidden2 net.mean net.scale (by decide)
  | xdpInputLinear =>
    cases hnext
    have hcells := cells_linearLayer net.layer0Weight attr.hidden2 attr.hidden1 (by decide) le_rfl
    have hx : cells attr.hidden2 6 (by decide) = scaled net x := h
    rw [hx] at hcells
    rw [entryStep, inputLinearBody, onNet_of_lookup_eq_some hnet]
    exact congrArg (maxZero ∘ ·) hcells
  | xdpInputRelu =>
    cases hnext
    exact (cells_inputRelu attr).trans h
  | xdpHiddenLinear =>
    cases hnext
    have hcells := cells_linearLayer net.layer1Weight attr.hidden1 attr.hidden2 le_rfl le_rfl
    have hx : cells attr.hidden1 32 le_rfl = maxZero ∘ preActivation1 net x := h
    rw [hx] at hcells
    rw [entryStep, hiddenLinearBody, onNet_of_lookup_eq_some hnet]
    exact congrArg (maxZero ∘ ·) hcells
  | xdpHiddenRelu =>
    cases hnext
    exact (cells_hiddenRelu attr).trans h
  | xdpOutputLinear => cases hnext

/-- Where no linear layer writes into `hidden1`, the buffer stays or passes the relu. -/
theorem cells_hidden1_entryStep {other : XdpProgram}
    (hother : (other.writesHidden1 && other != .xdpInputRelu) = false) :
    cells (entryStep f other ktime nn frame attr).attr.hidden1 32 le_rfl =
        cells attr.hidden1 32 le_rfl ∨
      cells (entryStep f other ktime nn frame attr).attr.hidden1 32 le_rfl =
        maxZero ∘ cells attr.hidden1 32 le_rfl := by
  rcases eq_or_ne other .xdpInputRelu with rfl | hne
  · exact Or.inr (cells_inputRelu attr)
  · have hwrites : other.writesHidden1 = false := by simpa [hne] using hother
    rw [hidden1_entryStep hwrites]
    exact Or.inl rfl

theorem cells_hidden2_entryStep {other : XdpProgram}
    (hother : (other.writesHidden2 && other != .xdpHiddenRelu) = false) :
    cells (entryStep f other ktime nn frame attr).attr.hidden2 32 le_rfl =
        cells attr.hidden2 32 le_rfl ∨
      cells (entryStep f other ktime nn frame attr).attr.hidden2 32 le_rfl =
        maxZero ∘ cells attr.hidden2 32 le_rfl := by
  rcases eq_or_ne other .xdpHiddenRelu with rfl | hne
  · exact Or.inr (cells_hiddenRelu attr)
  · have hwrites : other.writesHidden2 = false := by simpa [hne] using hother
    rw [hidden2_entryStep hwrites]
    exact Or.inl rfl

/-- A step of another packet that clobbers nothing leaves the intermediate result in place. -/
theorem carries_of_not_clobbers {own other : XdpProgram} (hother : other.clobbers own = false)
    (h : Carries net x own attr) :
    Carries net x own (entryStep f other ktime nn frame attr).attr := by
  cases own with
  | xdpProg => exact h
  | xdpPreprocessing =>
    have hne : other ≠ .xdpProg := by simpa [XdpProgram.clobbers] using hother
    exact (features_entryStep hne).trans h
  | xdpInputLinear =>
    unfold Carries
    rw [hidden2_entryStep hother]
    exact h
  | xdpInputRelu =>
    rcases cells_hidden1_entryStep hother with hcells | hcells
    · exact (congrArg (maxZero ∘ ·) hcells).trans h
    · have hagain := maxZero_comp_maxZero (cells attr.hidden1 32 le_rfl)
      exact ((congrArg (maxZero ∘ ·) hcells).trans hagain).trans h
  | xdpHiddenLinear =>
    have hx : cells attr.hidden1 32 le_rfl = maxZero ∘ preActivation1 net x := h
    rcases cells_hidden1_entryStep hother with hcells | hcells
    · exact hcells.trans hx
    · rw [hx, maxZero_comp_maxZero] at hcells
      exact hcells
  | xdpHiddenRelu =>
    rcases cells_hidden2_entryStep hother with hcells | hcells
    · exact (congrArg (maxZero ∘ ·) hcells).trans h
    · have hagain := maxZero_comp_maxZero (cells attr.hidden2 32 le_rfl)
      exact ((congrArg (maxZero ∘ ·) hcells).trans hagain).trans h
  | xdpOutputLinear =>
    have hx : cells attr.hidden2 32 le_rfl = maxZero ∘ preActivation2 net x := h
    rcases cells_hidden2_entryStep hother with hcells | hcells
    · exact hcells.trans hx
    · rw [hx, maxZero_comp_maxZero] at hcells
      exact hcells

/-- The last stage prints the label of the features whose intermediate result it finds. -/
theorem printk_of_carries
    (hnet : BpfMap.ArrayMap.lookup nn.nnParameters attr.nnIdx = some net)
    (h : Carries net x .xdpOutputLinear attr) :
    ∃ line, (entryStep f .xdpOutputLinear ktime nn frame attr).printk = some line ∧
      line.label = label (referenceNetwork net x) := by
  have hcells := cells_linearLayer net.layer2Weight attr.hidden2 attr.hidden1 le_rfl (by decide)
  have hx : cells attr.hidden2 32 le_rfl = maxZero ∘ preActivation2 net x := h
  rw [hx] at hcells
  rw [entryStep, outputLinearBody, onNet_of_lookup_eq_some hnet]
  refine ⟨outputLine ktime (attr.outputLinear net), rfl, ?_⟩
  rw [label_outputLine]
  exact congrArg label hcells

end

/-! ## Interleavings of one flow -/

/-- `xdp_prog` either ends without a tail call, or it leaves an entry with the active index. -/
theorem exit_xdpProg {frame : Frame} {f : Flow} (hframe : flowTuple frame = some f) (ktime : Ktime)
    (nn : NnMaps) (flowMap : FlowMap) :
    (exec .xdpProg ktime nn frame flowMap).exit = .pass ∨
      ∃ attr, (exec .xdpProg ktime nn frame flowMap).flowMap.lookup f = some attr ∧
        attr.nnIdx = nn.activeIdx := by
  rcases exit_eq_pass_or_closes ktime nn frame flowMap with
    hpass | ⟨flow, attr, hflow, hhost, hcloses, hattr⟩
  · exact Or.inl hpass
  · obtain rfl : f = flow := Option.some.inj (hframe.symm.trans hflow)
    right
    rw [exec_xdpProg_of_closes hframe hhost hcloses ktime nn hattr]
    exact ⟨pinned nn attr, lookup_modify_const hattr _, rfl⟩

namespace Machine

/-- A turn of another packet of the flow `f` rewrites what the detection of `packet` has to read. -/
def Disturbs (frames : ℕ → Frame) (f : Flow) (packet : ℕ) (machine : Machine) (turn : Turn) :
    Prop :=
  turn.packet ≠ packet ∧ ofFlow frames f turn = true ∧
    ∃ own other, machine.next packet = some own ∧ machine.next turn.packet = some other ∧
      other.clobbers own = true

/-- The flow has an entry, and the entry selects the active network. -/
def HasPinnedEntry (nn : NnMaps) (f : Flow) (machine : Machine) : Prop :=
  ∃ attr, machine.flowMap.lookup f = some attr ∧ attr.nnIdx = nn.activeIdx

/-- A packet past `xdp_prog` finds an entry that selects the active network. -/
def Started (nn : NnMaps) (f : Flow) (packet : ℕ) (machine : Machine) : Prop :=
  ∀ program, machine.next packet = some program → program ≠ .xdpProg → HasPinnedEntry nn f machine

/-- The entry of `f` carries the intermediate result that the detection of `packet` reads next. -/
def Tracked (nn : NnMaps) (net : Net) (x : Vector S64 6) (f : Flow) (packet : ℕ)
    (machine : Machine) : Prop :=
  ∃ attr, machine.flowMap.lookup f = some attr ∧ attr.nnIdx = nn.activeIdx ∧
    ∀ own, machine.next packet = some own → Carries net x own attr

section

variable {frames : ℕ → Frame} {f : Flow} {packet : ℕ} {nn : NnMaps} {net : Net}
  {x : Vector S64 6} {machine : Machine} {turn : Turn}

theorem hasPinnedEntry_step (hnn : turn.nn = nn) (h : HasPinnedEntry nn f machine) :
    HasPinnedEntry nn f (machine.step loadedProgs frames turn) := by
  obtain ⟨attr, hattr, hidx⟩ := h
  cases hown : ofFlow frames f turn with
  | false => exact ⟨attr, (lookup_step_of_not_ofFlow loadedProgs hown).trans hattr, hidx⟩
  | true =>
    have hframe : flowTuple (frames turn.packet) = some f := by simpa [ofFlow] using hown
    cases hnext : machine.next turn.packet with
    | none =>
      rw [step_of_next_eq_none loadedProgs hnext]
      exact ⟨attr, hattr, hidx⟩
    | some program =>
      have hstep := lookup_step_of_ofFlow loadedProgs hframe hnext hattr
      subst hnn
      exact ⟨_, hstep.1, nnIdx_entryStep hidx⟩

theorem started_step (hframe : flowTuple (frames packet) = some f) (hnn : turn.nn = nn)
    (h : Started nn f packet machine) :
    Started nn f packet (machine.step loadedProgs frames turn) := by
  intro program hprogram hstage
  by_cases hentry : HasPinnedEntry nn f machine
  · exact hasPinnedEntry_step hnn hentry
  · rcases eq_or_ne packet turn.packet with heq | hne
    · subst heq
      cases hnext : machine.next turn.packet with
      | none =>
        rw [step_of_next_eq_none loadedProgs hnext, hnext] at hprogram
        cases hprogram
      | some own =>
        -- Without such an entry the packet was still before `xdp_prog`.
        have hfirst : own = .xdpProg := by
          by_contra hother
          exact hentry (h own hnext hother)
        subst hfirst
        rw [step_of_next_eq_some loadedProgs hnext] at hprogram ⊢
        rcases exit_xdpProg hframe turn.ktime turn.nn machine.flowMap with hpass | hpinned
        · simp [hpass, Exit.next] at hprogram
        · subst hnn
          exact hpinned
    · rw [next_step_of_ne loadedProgs hne] at hprogram
      exact absurd (h program hprogram hstage) hentry

theorem tracked_step (hnet : BpfMap.ArrayMap.lookup nn.nnParameters nn.activeIdx = some net)
    (hframe : flowTuple (frames packet) = some f) (hnn : turn.nn = nn)
    (hcalm : ¬ Disturbs frames f packet machine turn) (h : Tracked nn net x f packet machine) :
    Tracked nn net x f packet (machine.step loadedProgs frames turn) := by
  obtain ⟨attr, hattr, hidx, hcarries⟩ := h
  subst hnn
  cases hown : ofFlow frames f turn with
  | false =>
    have hne : packet ≠ turn.packet := by
      intro heq
      subst heq
      simp [ofFlow, hframe] at hown
    refine ⟨attr, (lookup_step_of_not_ofFlow loadedProgs hown).trans hattr, hidx, ?_⟩
    intro own hnext
    rw [next_step_of_ne loadedProgs hne] at hnext
    exact hcarries own hnext
  | true =>
    have hturn : flowTuple (frames turn.packet) = some f := by simpa [ofFlow] using hown
    cases hnext : machine.next turn.packet with
    | none =>
      rw [step_of_next_eq_none loadedProgs hnext]
      exact ⟨attr, hattr, hidx, hcarries⟩
    | some program =>
      obtain ⟨hentry, hexit⟩ := lookup_step_of_ofFlow loadedProgs hturn hnext hattr
      refine ⟨_, hentry, nnIdx_entryStep hidx, ?_⟩
      intro own hownNext
      rcases eq_or_ne packet turn.packet with heq | hne
      · subst heq
        have hnet' : BpfMap.ArrayMap.lookup turn.nn.nnParameters attr.nnIdx = some net := by
          rw [hidx, hnet]
        have hprogram := hcarries program hnext
        have hstage : program ≠ .xdpProg := by
          intro hprog
          rw [hprog] at hprogram
          exact hprogram
        rw [hexit, next_entryStep hstage hnet'] at hownNext
        exact carries_following hnet' hownNext hprogram
      · rw [next_step_of_ne loadedProgs hne] at hownNext
        apply carries_of_not_clobbers _ (hcarries own hownNext)
        by_contra hclobbers
        exact hcalm ⟨hne.symm, hown, own, program, hownNext, hnext, by simpa using hclobbers⟩

variable (turn) in
/-- A packet that is about to run the last stage on such an entry prints the label of `x`. -/
theorem printk_of_tracked (hnet : BpfMap.ArrayMap.lookup nn.nnParameters nn.activeIdx = some net)
    (hframe : flowTuple (frames turn.packet) = some f) (hnn : turn.nn = nn)
    (hnext : machine.next turn.packet = some .xdpOutputLinear)
    (h : Tracked nn net x f turn.packet machine) :
    ∃ line, (machine.outcome frames turn).bind Outcome.printk = some line ∧
      line.label = label (referenceNetwork net x) := by
  obtain ⟨attr, hattr, hidx, hcarries⟩ := h
  subst hnn
  rw [outcome_of_next_eq_some hnext, exec_of_lookup_eq_some hframe hattr]
  exact printk_of_carries (by rw [hidx, hnet]) (hcarries _ hnext)

end

/-- A detection prints the label of the features that its own `xdp_preprocessing` read, if between
this step and its `xdp_output_linear` no other packet of the flow rewrites the cells that it still
has to read. -/
theorem label_of_undisturbed {nn : NnMaps} {net : Net}
    (hnet : BpfMap.ArrayMap.lookup nn.nnParameters nn.activeIdx = some net) {frames : ℕ → Frame}
    {f : Flow} {packet : ℕ} (hframe : flowTuple (frames packet) = some f) {machine : Machine}
    (hstart : ∀ program, machine.next packet = some program → program = .xdpProg)
    {before during : List Turn} {preprocessing output : Turn}
    (hnn : ∀ turn ∈ before ++ preprocessing :: during ++ [output], turn.nn = nn)
    (hpreprocessing : preprocessing.packet = packet) (houtput : output.packet = packet)
    (hread : (Interleaving.run (step loadedProgs frames) machine before).next packet =
      some .xdpPreprocessing)
    (hundisturbed : Interleaving.Throughout (step loadedProgs frames)
      (fun reached turn ↦ ¬ Disturbs frames f packet reached turn)
      (Interleaving.run (step loadedProgs frames) machine (before ++ [preprocessing])) during)
    (hprint : (Interleaving.run (step loadedProgs frames) machine
      (before ++ preprocessing :: during)).next packet = some .xdpOutputLinear) :
    ∃ attr line,
      (Interleaving.run (step loadedProgs frames) machine before).flowMap.lookup f = some attr ∧
      ((Interleaving.run (step loadedProgs frames) machine
        (before ++ preprocessing :: during)).outcome frames output).bind Outcome.printk =
          some line ∧
      line.label = label (referenceNetwork net attr.features) := by
  set progStep := step loadedProgs frames with hprogStep
  have hbefore : Started nn f packet (Interleaving.run progStep machine before) := by
    have hstep : ∀ state turn, turn.nn = nn → Started nn f packet state →
        Started nn f packet (progStep state turn) :=
      fun _ _ hturn hstate ↦ started_step hframe hturn hstate
    apply Interleaving.run_induction progStep hstep
    · intro program hprogram hstage
      exact absurd (hstart program hprogram) hstage
    · intro turn hturn
      exact hnn turn (by simp [hturn])
  obtain ⟨attr, hattr, hidx⟩ := hbefore _ hread (by decide)
  have hreading : Tracked nn net attr.features f packet
      (Interleaving.run progStep machine before) := by
    refine ⟨attr, hattr, hidx, ?_⟩
    intro own hown
    rw [hread] at hown
    cases hown
    rfl
  have hafter : Tracked nn net attr.features f packet
      (Interleaving.run progStep machine (before ++ [preprocessing])) := by
    rw [Interleaving.run_concat]
    apply tracked_step hnet hframe (hnn preprocessing (by simp)) _ hreading
    intro hdisturbs
    exact hdisturbs.1 hpreprocessing
  have hduring : Tracked nn net attr.features f packet
      (Interleaving.run progStep machine (before ++ preprocessing :: during)) := by
    have hstep : ∀ state turn, turn.nn = nn ∧ ¬ Disturbs frames f packet state turn →
        Tracked nn net attr.features f packet state →
        Tracked nn net attr.features f packet (progStep state turn) :=
      fun _ _ hturn hstate ↦ tracked_step hnet hframe hturn.1 hturn.2 hstate
    have hsplit : before ++ preprocessing :: during = (before ++ [preprocessing]) ++ during := by
      simp
    rw [hsplit, Interleaving.run_append]
    apply Interleaving.run_induction_throughout progStep hstep hafter
    intro earlier turn later hlater
    exact ⟨hnn turn (by simp [hlater]), hundisturbed earlier turn later hlater⟩
  subst houtput
  obtain ⟨line, hline, hlabel⟩ :=
    printk_of_tracked output hnet hframe (hnn output (by simp)) hprint hduring
  exact ⟨attr, line, hattr, hline, hlabel⟩

/-! ## Two closing packets at once -/

/-- Two closing packets of one flow. -/
def twoClosing : ℕ → Frame := fun packet ↦ hostFrame 7 (if packet = 0 then 40 else 41) true

/-- The maps with slot 1 selected and nothing but zeros in slot 0. -/
def mapsWith (net : Net) : NnMaps := ⟨#v[Net.zero, net], #v[1]⟩

/-- A turn of a packet; the clock always shows the same. -/
def turnOf (net : Net) (packet : ℕ) : Turn := ⟨packet, ⟨9, 9, 9, 9, 9⟩, mapsWith net⟩

/-- The machine after the packets have taken these turns, with no flow known before. -/
def afterTurns (net : Net) (packets : List ℕ) : Machine :=
  Interleaving.run (step loadedProgs twoClosing) ⟨BpfMap.HashMap.empty, fun _ ↦ some .xdpProg⟩
    (packets.map (turnOf net))

theorem lookup_mapsWith (net : Net) :
    BpfMap.ArrayMap.lookup (mapsWith net).nnParameters (mapsWith net).activeIdx = some net := rfl

/-- A second closing packet that is recorded before the first one reads the features disturbs
nothing, with the shipped network in slot 1. -/
theorem label_of_undisturbed_twoClosing :
    ∃ attr line, (afterTurns shippedNet [0, 1]).flowMap.lookup (hostFlow 7) = some attr ∧
      ((afterTurns shippedNet ([0, 1] ++ 0 :: [0, 0, 0, 0])).outcome twoClosing
        (turnOf shippedNet 0)).bind Outcome.printk = some line ∧
      line.label = label (referenceNetwork shippedNet attr.features) := by
  have hread : (afterTurns shippedNet [0, 1]).next 0 = some .xdpPreprocessing := by
    decide +kernel
  have hprint : (afterTurns shippedNet ([0, 1] ++ 0 :: [0, 0, 0, 0])).next 0 =
      some .xdpOutputLinear := by decide +kernel
  have hown : ∀ turn ∈ [0, 0, 0, 0].map (turnOf shippedNet), turn.packet = 0 := by
    simp [turnOf]
  have hmaps : ∀ turn ∈ [0, 1].map (turnOf shippedNet) ++ turnOf shippedNet 0 ::
      [0, 0, 0, 0].map (turnOf shippedNet) ++ [turnOf shippedNet 0],
      turn.nn = mapsWith shippedNet := by simp [turnOf]
  unfold afterTurns at hread hprint ⊢
  rw [List.map_append, List.map_cons] at hprint ⊢
  apply label_of_undisturbed (lookup_mapsWith shippedNet) (flowTuple_hostFrame 7 40 true)
    (fun _ h ↦ (Option.some.inj h).symm) hmaps rfl rfl hread _ hprint
  intro earlier turn later hsplit hdisturbs
  exact hdisturbs.1 (hown turn (by simp [hsplit]))

/-- A network that puts out the number of packets over 1, scaled, against 0. -/
def countingNet : Net where
  layer0Weight := Vector.ofFn fun k ↦ if k.val = 5 then 65536 else 0
  layer1Weight := Vector.ofFn fun k ↦ if k.val = 0 then 65536 else 0
  layer2Weight := Vector.ofFn fun k ↦ if k.val = 0 then 65536 else 0
  mean := #v[0, 0, 0, 0, 0, 1]
  scale := #v[1, 1, 1, 1, 1, 1]

/-- What a single weight 65536, that is 1.0, does to a value. -/
def throughOne (a : S32) : S32 := narrow ((65536 : S32).signExtend 64 * a.signExtend 64)

theorem label_countingNet (x : Vector S64 6) :
    label (referenceNetwork countingNet x) =
      label ![throughOne (maxZero (throughOne (maxZero (throughOne (scaleFeature (x.get 5) 1 1))))),
        narrow 0] := by
  have hrow0 : ∀ k : Fin 6, k ≠ 5 → matrixOf countingNet.layer0Weight (0 : Fin 32) k = 0 := by
    intro k hk
    have hval : k.val ≠ 5 := fun h ↦ hk (Fin.ext h)
    simp [matrixOf, countingNet, rowMajor, hval]
  have hrow1 : ∀ k : Fin 32, k ≠ 0 → matrixOf countingNet.layer1Weight (0 : Fin 32) k = 0 := by
    intro k hk
    simp [matrixOf, countingNet, rowMajor, hk]
  have hrow2 : ∀ k : Fin 32, k ≠ 0 → matrixOf countingNet.layer2Weight (0 : Fin 2) k = 0 := by
    intro k hk
    simp [matrixOf, countingNet, rowMajor, hk]
  have hzero : ∀ k : Fin 32, matrixOf countingNet.layer2Weight (1 : Fin 2) k = 0 := by
    intro k
    simp [matrixOf, countingNet, rowMajor]
  have hone0 : matrixOf countingNet.layer0Weight (0 : Fin 32) 5 = 65536 := by
    simp [matrixOf, countingNet, rowMajor]
  have hone1 : matrixOf countingNet.layer1Weight (0 : Fin 32) 0 = 65536 := by
    simp [matrixOf, countingNet, rowMajor]
  have hone2 : matrixOf countingNet.layer2Weight (0 : Fin 2) 0 = 65536 := by
    simp [matrixOf, countingNet, rowMajor]
  have h1 : preActivation1 countingNet x 0 = throughOne (scaleFeature (x.get 5) 1 1) := by
    rw [preActivation1, matVec_of_single 5 hrow0, hone0]
    rfl
  have h2 : preActivation2 countingNet x 0 =
      throughOne (maxZero (throughOne (scaleFeature (x.get 5) 1 1))) := by
    rw [preActivation2, matVec_of_single 0 hrow1, hone1, Function.comp_apply, h1]
    rfl
  have h3 : referenceNetwork countingNet x 0 =
      throughOne (maxZero (throughOne (maxZero (throughOne (scaleFeature (x.get 5) 1 1))))) := by
    rw [referenceNetwork, matVec_of_single 0 hrow2, hone2, Function.comp_apply, h2]
    rfl
  have h4 : referenceNetwork countingNet x 1 = narrow 0 := by
    rw [referenceNetwork, matVec_of_single 0 (fun k _ ↦ hzero k), hzero]
    simp
  unfold label
  rw [h3, h4]
  rfl

/-- The second closing packet scales its own features into `hidden2` between the first two stages of
the first one, and the first one prints the label of these features instead of its own. -/
theorem label_of_overlapping_twoClosing :
    ∃ attr line,
      (afterTurns countingNet [0]).next 0 = some .xdpPreprocessing ∧
      (afterTurns countingNet [0]).flowMap.lookup (hostFlow 7) = some attr ∧
      ((afterTurns countingNet [0, 0, 1, 1, 0, 0, 0, 0]).outcome twoClosing
        (turnOf countingNet 0)).bind Outcome.printk = some line ∧
      line.label ≠ label (referenceNetwork countingNet attr.features) := by
  have hnet := lookup_mapsWith countingNet
  have hframe : flowTuple (twoClosing 0) = some (hostFlow 7) := flowTuple_hostFrame 7 40 true
  have hread : (afterTurns countingNet [0]).next 0 = some .xdpPreprocessing := by decide +kernel
  have hown : ((afterTurns countingNet [0]).flowMap.lookup (hostFlow 7)).any
      (fun attr ↦ attr.features.get 5 == 1) = true := by decide +kernel
  obtain ⟨attr, hattr, hcount⟩ := (Option.any_eq_true _ _).mp hown
  -- The first packet is before its second stage, and the cells that it reads are foreign.
  have hnext : (afterTurns countingNet [0, 0, 1, 1]).next 0 = some .xdpInputLinear := by
    decide +kernel
  have hother : ((afterTurns countingNet [0, 0, 1, 1]).flowMap.lookup (hostFlow 7)).any
      (fun attr ↦ attr.features.get 5 == 2 && attr.nnIdx == (mapsWith countingNet).activeIdx &&
        decide (cells attr.hidden2 6 (by decide) = scaled countingNet attr.features)) = true := by
    decide +kernel
  obtain ⟨foreign, hforeign, hfacts⟩ := (Option.any_eq_true _ _).mp hother
  simp only [Bool.and_eq_true, beq_iff_eq, decide_eq_true_eq] at hfacts hcount
  obtain ⟨⟨hforeignCount, hidx⟩, hcells⟩ := hfacts
  have htracked : Tracked (mapsWith countingNet) countingNet foreign.features (hostFlow 7) 0
      (afterTurns countingNet [0, 0, 1, 1]) := by
    refine ⟨foreign, hforeign, hidx, ?_⟩
    intro own hownNext
    rw [hnext] at hownNext
    cases hownNext
    exact hcells
  have hrest : Tracked (mapsWith countingNet) countingNet foreign.features (hostFlow 7) 0
      (afterTurns countingNet ([0, 0, 1, 1] ++ [0, 0, 0, 0])) := by
    have hstep : ∀ state turn, turn.nn = mapsWith countingNet ∧ turn.packet = 0 →
        Tracked (mapsWith countingNet) countingNet foreign.features (hostFlow 7) 0 state →
        Tracked (mapsWith countingNet) countingNet foreign.features (hostFlow 7) 0
          (step loadedProgs twoClosing state turn) :=
      fun _ _ hturn hstate ↦ tracked_step hnet hframe hturn.1
        (fun hdisturbs ↦ hdisturbs.1 hturn.2) hstate
    unfold afterTurns at htracked ⊢
    rw [List.map_append, Interleaving.run_append]
    apply Interleaving.run_induction _ hstep htracked
    simp [turnOf]
  have hlast : (afterTurns countingNet ([0, 0, 1, 1] ++ [0, 0, 0, 0])).next 0 =
      some .xdpOutputLinear := by decide +kernel
  have hprinted : ∃ line,
      ((afterTurns countingNet ([0, 0, 1, 1] ++ [0, 0, 0, 0])).outcome twoClosing
      (turnOf countingNet 0)).bind Outcome.printk = some line ∧
      line.label = label (referenceNetwork countingNet foreign.features) :=
    printk_of_tracked (turnOf countingNet 0) hnet hframe rfl hlast hrest
  obtain ⟨line, hline, hlabel⟩ := hprinted
  refine ⟨attr, line, hread, hattr, hline, ?_⟩
  rw [hlabel, label_countingNet, label_countingNet, hforeignCount, hcount]
  decide +kernel

end Machine

end NNeBPF

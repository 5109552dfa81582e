import NNeBPF.Control.Loader

/-!
# The pipeline computes the network

A detection is the chain of six stages that a FIN or RST of the monitored host starts.  The stages
use `hidden1` and `hidden2` alternately as input and output with 6, 32 and 2 live cells.  With the
program array that the loader fills, the chain prints the label of the reference network for the
features of the recorded entry, whatever the two buffers held before.
-/

namespace NNeBPF

open Mlp

/-! ## Stale buffers -/

/-- The buffers and the index of an entry replaced by anything. -/
def withStale (hidden1 hidden2 : Vector S32 32) (nnIdx : S32) (attr : FlowAttribute) :
    FlowAttribute :=
  { attr with hidden1 := hidden1, hidden2 := hidden2, nnIdx := nnIdx }

theorem withStale_self (attr : FlowAttribute) :
    withStale attr.hidden1 attr.hidden2 attr.nnIdx attr = attr := rfl

/-- The label in the line is the label of the first two cells of `hidden1`. -/
theorem label_outputLine (ktime : Ktime) (attr : FlowAttribute) :
    (outputLine ktime attr).label = label (cells attr.hidden1 2 (by decide)) := rfl

/-! ## The chain of one detection -/

/-- The entry as `xdp_input_relu` leaves it. -/
def afterInputRelu (net : Net) (attr : FlowAttribute) : FlowAttribute :=
  ((attr.scale net).inputLinear net).inputRelu

/-- The entry as `xdp_hidden_relu` leaves it. -/
def afterHiddenRelu (net : Net) (attr : FlowAttribute) : FlowAttribute :=
  ((afterInputRelu net attr).hiddenLinear net).hiddenRelu

/-- The entry as the six stages leave it. -/
def detect (net : Net) (attr : FlowAttribute) : FlowAttribute :=
  (((((attr.scale net).inputLinear net).inputRelu).hiddenLinear net).hiddenRelu).outputLinear net

/-- The six executions of a detection. -/
def detectionChain (net : Net) (ktime : Ktime) (attr : FlowAttribute) : List EntryExecution :=
  let scaled := attr.scale net
  let linear1 := scaled.inputLinear net
  let relu1 := linear1.inputRelu
  let linear2 := relu1.hiddenLinear net
  let relu2 := linear2.hiddenRelu
  let linear3 := relu2.outputLinear net
  [⟨.xdpPreprocessing, attr, ⟨scaled, .tailCall 1, none⟩⟩,
    ⟨.xdpInputLinear, scaled, ⟨linear1, .tailCall 2, none⟩⟩,
    ⟨.xdpInputRelu, linear1, ⟨relu1, .tailCall 3, none⟩⟩,
    ⟨.xdpHiddenLinear, relu1, ⟨linear2, .tailCall 4, none⟩⟩,
    ⟨.xdpHiddenRelu, linear2, ⟨relu2, .tailCall 5, none⟩⟩,
    ⟨.xdpOutputLinear, relu2, ⟨linear3, .pass, some (outputLine ktime linear3)⟩⟩]

theorem onNet_of_lookup_eq_some {nn : NnMaps} {attr : FlowAttribute} {net : Net}
    (hnet : BpfMap.ArrayMap.lookup nn.nnParameters attr.nnIdx = some net)
    (body : Net → EntryOutcome) : onNet nn attr body = body net := by
  simp only [onNet, hnet]

/-- The slot of each stage in the filled table. -/
theorem next_loadedProgs :
    (Exit.tailCall 0).next loadedProgs = some .xdpPreprocessing ∧
      (Exit.tailCall 1).next loadedProgs = some .xdpInputLinear ∧
      (Exit.tailCall 2).next loadedProgs = some .xdpInputRelu ∧
      (Exit.tailCall 3).next loadedProgs = some .xdpHiddenLinear ∧
      (Exit.tailCall 4).next loadedProgs = some .xdpHiddenRelu ∧
      (Exit.tailCall 5).next loadedProgs = some .xdpOutputLinear := by
  have htarget (desc : BpfProgsDesc) (hdesc : desc ∈ progsTable) :
      (Exit.tailCall desc.mapProgIdx).next loadedProgs = some desc.name :=
    tailCallTarget_loadedProgs hdesc
  refine ⟨htarget ⟨_, 0⟩ ?_, htarget ⟨_, 1⟩ ?_, htarget ⟨_, 2⟩ ?_, htarget ⟨_, 3⟩ ?_,
    htarget ⟨_, 4⟩ ?_, htarget ⟨_, 5⟩ ?_⟩ <;> simp [progsTable]

/-- Whoever starts `xdp_preprocessing` on an entry that selects a slot runs all six stages. -/
theorem entryChain_xdpPreprocessing (ktime : Ktime) {nn : NnMaps} (frame : Frame) (f : Flow)
    {attr : FlowAttribute} {net : Net}
    (hnet : BpfMap.ArrayMap.lookup nn.nnParameters attr.nnIdx = some net) (calls : ℕ) :
    entryChain loadedProgs ktime nn frame f (calls + 5) .xdpPreprocessing attr =
      detectionChain net ktime attr := by
  obtain ⟨-, h1, h2, h3, h4, h5⟩ := next_loadedProgs
  -- No stage writes the index, so every lookup finds the same network.
  have hon (later : FlowAttribute) (hidx : later.nnIdx = attr.nnIdx) (body : Net → EntryOutcome) :
      onNet nn later body = body net :=
    onNet_of_lookup_eq_some (by rw [hidx]; exact hnet) body
  have hscale : entryStep f .xdpPreprocessing ktime nn frame attr =
      ⟨attr.scale net, .tailCall 1, none⟩ := hon attr rfl _
  have hlinear1 : entryStep f .xdpInputLinear ktime nn frame (attr.scale net) =
      ⟨(attr.scale net).inputLinear net, .tailCall 2, none⟩ := hon (attr.scale net) rfl _
  have hrelu1 : entryStep f .xdpInputRelu ktime nn frame ((attr.scale net).inputLinear net) =
      ⟨((attr.scale net).inputLinear net).inputRelu, .tailCall 3, none⟩ := rfl
  have hlinear2 (linear1 : FlowAttribute) (hidx : linear1.nnIdx = attr.nnIdx) :
      entryStep f .xdpHiddenLinear ktime nn frame linear1.inputRelu =
        ⟨linear1.inputRelu.hiddenLinear net, .tailCall 4, none⟩ := hon linear1.inputRelu hidx _
  have hrelu2 (linear2 : FlowAttribute) : entryStep f .xdpHiddenRelu ktime nn frame linear2 =
      ⟨linear2.hiddenRelu, .tailCall 5, none⟩ := rfl
  have houtput (linear2 : FlowAttribute) (hidx : linear2.nnIdx = attr.nnIdx) :
      entryStep f .xdpOutputLinear ktime nn frame linear2.hiddenRelu =
        ⟨linear2.hiddenRelu.outputLinear net, .pass,
          some (outputLine ktime (linear2.hiddenRelu.outputLinear net))⟩ :=
    hon linear2.hiddenRelu hidx _
  rw [entryChain_succ_of_next (calls + 4) hscale h1,
    entryChain_succ_of_next (calls + 3) hlinear1 h2,
    entryChain_succ_of_next (calls + 2) hrelu1 h3,
    entryChain_succ_of_next (calls + 1) (hlinear2 ((attr.scale net).inputLinear net) rfl) h4,
    entryChain_succ_of_next calls (hrelu2 _) h5,
    entryChain_of_pass calls
      (houtput (((attr.scale net).inputLinear net).inputRelu.hiddenLinear net) rfl) rfl]
  rfl

/-! ## A closing packet of the monitored host -/

section

variable {frame : Frame} {f : Flow}

/-- The entry of a closing packet's flow when the detection starts: recorded and pinned. -/
def pinned (nn : NnMaps) (attr : FlowAttribute) : FlowAttribute :=
  { attr with nnIdx := nn.activeIdx }

theorem exec_xdpProg_of_closes (hframe : flowTuple frame = some f) (hhost : f.monitored = true)
    (hcloses : frame.tcpHdr.closes = true) (ktime : Ktime) (nn : NnMaps) {flowMap : FlowMap}
    {attr : FlowAttribute}
    (hattr : (updateFlowAttribute flowMap f frame.tcpHdr frame.ipHdr.packetLength ktime).lookup f =
      some attr) :
    exec .xdpProg ktime nn frame flowMap =
      (⟨pinned nn attr, .tailCall 0, none⟩ : EntryOutcome).inMap
        (updateFlowAttribute flowMap f frame.tcpHdr frame.ipHdr.packetLength ktime) f := by
  simp only [exec]
  rw [xdpProg_of_flowTuple_eq_some hframe]
  simp only [hhost, hcloses, if_true, hattr, EntryOutcome.inMap]
  rw [modify_eq_of_lookup hattr]
  rfl

/-- `xdp_prog` ends without a tail call, or its frame closes a connection of the monitored host and
is recorded. -/
theorem exit_eq_pass_or_closes (ktime : Ktime) (nn : NnMaps) (frame : Frame) (flowMap : FlowMap) :
    (exec .xdpProg ktime nn frame flowMap).exit = .pass ∨
      ∃ f attr, flowTuple frame = some f ∧ f.monitored = true ∧ frame.tcpHdr.closes = true ∧
        (updateFlowAttribute flowMap f frame.tcpHdr frame.ipHdr.packetLength ktime).lookup f =
          some attr := by
  cases hframe : flowTuple frame with
  | none =>
    left
    rw [exec_of_flowTuple_eq_none hframe]
    rfl
  | some f =>
    have hprog := xdpProg_of_flowTuple_eq_some hframe ktime nn flowMap
    simp only [exec]
    rw [hprog]
    cases hhost : f.monitored with
    | false => exact Or.inl rfl
    | true =>
      cases hcloses : frame.tcpHdr.closes with
      | false => exact Or.inl rfl
      | true =>
        cases hattr : (updateFlowAttribute flowMap f frame.tcpHdr frame.ipHdr.packetLength
            ktime).lookup f with
        | none =>
          left
          simp only [if_true, hattr]
          rfl
        | some attr => exact Or.inr ⟨f, attr, rfl, hhost, rfl, hattr⟩

/-- Without a tail call `xdp_prog` is all that a frame runs. -/
theorem receive_of_pass {progs : ProgArray} {ktime : Ktime} {nn : NnMaps} {flowMap : FlowMap}
    (hpass : (exec .xdpProg ktime nn frame flowMap).exit = .pass) :
    receive progs ktime nn frame flowMap =
      [⟨.xdpProg, flowMap, exec .xdpProg ktime nn frame flowMap⟩] := by
  unfold receive maxTailCallCnt
  rw [runChain]
  simp only [hpass, Exit.next]

/-- What a closing packet runs: `xdp_prog` and then the six stages on the pinned entry. -/
theorem receive_of_closes (hframe : flowTuple frame = some f) (hhost : f.monitored = true)
    (hcloses : frame.tcpHdr.closes = true) (ktime : Ktime) (nn : NnMaps) {net : Net}
    (hnet : BpfMap.ArrayMap.lookup nn.nnParameters nn.activeIdx = some net) {flowMap : FlowMap}
    {attr : FlowAttribute}
    (hattr : (updateFlowAttribute flowMap f frame.tcpHdr frame.ipHdr.packetLength ktime).lookup f =
      some attr) :
    receive loadedProgs ktime nn frame flowMap =
      ⟨.xdpProg, flowMap, exec .xdpProg ktime nn frame flowMap⟩ ::
        (detectionChain net ktime (pinned nn attr)).map fun execution ↦
          execution.inMap
            (updateFlowAttribute flowMap f frame.tcpHdr frame.ipHdr.packetLength ktime) f := by
  have hprog := exec_xdpProg_of_closes hframe hhost hcloses ktime nn hattr
  have hpinned : BpfMap.ArrayMap.lookup nn.nnParameters (pinned nn attr).nnIdx = some net := hnet
  have hstages := entryChain_xdpPreprocessing ktime frame f hpinned 27
  unfold receive maxTailCallCnt
  rw [runChain]
  simp only [hprog, EntryOutcome.inMap, next_loadedProgs.1]
  congr 1
  rw [runChain_eq_map_entryChain hframe loadedProgs ktime nn hattr, hstages]

/-- Whenever `xdp_preprocessing` runs, the entry of the frame's flow selects the active network. -/
theorem nnIdx_of_mem_receive {ktime : Ktime} {nn : NnMaps} {net : Net}
    (hnet : BpfMap.ArrayMap.lookup nn.nnParameters nn.activeIdx = some net) {flowMap : FlowMap}
    {execution : Execution} (hmem : execution ∈ receive loadedProgs ktime nn frame flowMap)
    (hprogram : execution.program = .xdpPreprocessing) {f : Flow} {attr : FlowAttribute}
    (hframe : flowTuple frame = some f) (hattr : execution.start.lookup f = some attr) :
    attr.nnIdx = nn.activeIdx := by
  rcases exit_eq_pass_or_closes ktime nn frame flowMap with
    hpass | ⟨flow, updated, hflow, hhost, hcloses, hupdated⟩
  · rw [receive_of_pass hpass, List.mem_singleton] at hmem
    rw [hmem] at hprogram
    cases hprogram
  · obtain rfl : f = flow := Option.some.inj (hframe.symm.trans hflow)
    rw [receive_of_closes hframe hhost hcloses ktime nn hnet hupdated, List.mem_cons,
      List.mem_map] at hmem
    obtain rfl | ⟨stage, hstage, rfl⟩ := hmem
    · cases hprogram
    · -- Of the six stages only the first one is `xdp_preprocessing`.
      have hstart : stage.start = pinned nn updated := by
        simp only [detectionChain, List.mem_cons, List.not_mem_nil, or_false] at hstage
        obtain rfl | rfl | rfl | rfl | rfl | rfl := hstage
        · rfl
        all_goals cases hprogram
      have hlookup := lookup_modify_const hupdated stage.start
      rw [EntryExecution.inMap] at hattr
      have hattrStart : stage.start = attr := Option.some.inj (hlookup.symm.trans hattr)
      rw [← hattrStart, hstart]
      rfl

/-- The line that a closing packet prints. -/
theorem printedLines_of_closes (hframe : flowTuple frame = some f) (hhost : f.monitored = true)
    (hcloses : frame.tcpHdr.closes = true) (ktime : Ktime) (nn : NnMaps) {net : Net}
    (hnet : BpfMap.ArrayMap.lookup nn.nnParameters nn.activeIdx = some net) {flowMap : FlowMap}
    {attr : FlowAttribute}
    (hattr : (updateFlowAttribute flowMap f frame.tcpHdr frame.ipHdr.packetLength ktime).lookup f =
      some attr) :
    printedLines (receive loadedProgs ktime nn frame flowMap) =
      [outputLine ktime (detect net (pinned nn attr))] := by
  have hprog := exec_xdpProg_of_closes hframe hhost hcloses ktime nn hattr
  rw [receive_of_closes hframe hhost hcloses ktime nn hnet hattr, hprog]
  rfl

/-- The map that a closing packet leaves. -/
theorem finalMap_of_closes (hframe : flowTuple frame = some f) (hhost : f.monitored = true)
    (hcloses : frame.tcpHdr.closes = true) (ktime : Ktime) (nn : NnMaps) {net : Net}
    (hnet : BpfMap.ArrayMap.lookup nn.nnParameters nn.activeIdx = some net) {flowMap : FlowMap}
    {attr : FlowAttribute}
    (hattr : (updateFlowAttribute flowMap f frame.tcpHdr frame.ipHdr.packetLength ktime).lookup f =
      some attr) :
    finalMap flowMap (receive loadedProgs ktime nn frame flowMap) =
      (updateFlowAttribute flowMap f frame.tcpHdr frame.ipHdr.packetLength ktime).modify f
        fun _ ↦ detect net (pinned nn attr) := by
  rw [receive_of_closes hframe hhost hcloses ktime nn hnet hattr]
  rfl

end

/-! ## The outputs of a detection -/

theorem recordPacket_withStale (tcp : TcpHdr) (packetLength : U64) (ktime : Ktime)
    (hidden1 hidden2 : Vector S32 32) (nnIdx : S32) (attr : FlowAttribute) :
    recordPacket tcp packetLength ktime (withStale hidden1 hidden2 nnIdx attr) =
      withStale hidden1 hidden2 nnIdx (recordPacket tcp packetLength ktime attr) := rfl

theorem pinned_withStale (nn : NnMaps) (hidden1 hidden2 : Vector S32 32) (nnIdx : S32)
    (attr : FlowAttribute) :
    pinned nn (withStale hidden1 hidden2 nnIdx attr) =
      withStale hidden1 hidden2 (pinned nn attr).nnIdx (pinned nn attr) := rfl

section

variable (net : Net) (hidden1 hidden2 : Vector S32 32) (nnIdx : S32) (attr : FlowAttribute)

theorem afterInputRelu_withStale :
    afterInputRelu net (withStale hidden1 hidden2 nnIdx attr) =
      withStale (Vector.ofFn (maxZero ∘ preActivation1 net attr.features))
        (standardScaler attr.features hidden2 net.mean net.scale features_fit) nnIdx attr := by
  rw [← inputRelu_eq_ofFn net attr.features hidden1 hidden2]
  rfl

/-- Both buffers are overwritten when the last stage begins. -/
theorem afterHiddenRelu_withStale :
    afterHiddenRelu net (withStale hidden1 hidden2 nnIdx attr) =
      withStale (Vector.ofFn (maxZero ∘ preActivation1 net attr.features))
        (Vector.ofFn (maxZero ∘ preActivation2 net attr.features)) nnIdx attr := by
  unfold afterHiddenRelu
  rw [afterInputRelu_withStale, ← hiddenRelu_eq_ofFn net attr.features
    (standardScaler attr.features hidden2 net.mean net.scale features_fit)]
  rfl

/-- The entry after a detection: nothing of what the buffers held before is left in it. -/
theorem detect_withStale :
    detect net (withStale hidden1 hidden2 nnIdx attr) =
      withStale
        (linearLayer 2 32 net.layer2Weight
          (Vector.ofFn (maxZero ∘ preActivation2 net attr.features))
          (Vector.ofFn (maxZero ∘ preActivation1 net attr.features)) le_rfl (by decide))
        (Vector.ofFn (maxZero ∘ preActivation2 net attr.features)) nnIdx attr := by
  have hlast : detect net (withStale hidden1 hidden2 nnIdx attr) =
      (afterHiddenRelu net (withStale hidden1 hidden2 nnIdx attr)).outputLinear net := rfl
  rw [hlast, afterHiddenRelu_withStale]
  rfl

end

/-- Recording sees nothing of the buffers, pinning forgets the old index, and the detection forgets
the old buffers. -/
theorem detect_recorded_withStale (net : Net) (nn : NnMaps) (tcp : TcpHdr) (packetLength : U64)
    (ktime : Ktime) (hidden1 hidden2 : Vector S32 32) (nnIdx : S32) (attr : FlowAttribute) :
    detect net (pinned nn (recordPacket tcp packetLength ktime
        (withStale hidden1 hidden2 nnIdx attr))) =
      detect net (pinned nn (recordPacket tcp packetLength ktime attr)) := by
  set fresh := pinned nn (recordPacket tcp packetLength ktime attr) with hfresh
  have hself := detect_withStale net fresh.hidden1 fresh.hidden2 fresh.nnIdx fresh
  rw [withStale_self] at hself
  rw [hself, recordPacket_withStale, pinned_withStale, detect_withStale, ← hfresh]

/-- The six stages put the outputs of the reference network into the first cells of `hidden1`. -/
theorem cells_detect (net : Net) (attr : FlowAttribute) :
    cells (detect net attr).hidden1 2 (by decide) = referenceNetwork net attr.features := by
  have hdetect := detect_withStale net attr.hidden1 attr.hidden2 attr.nnIdx attr
  have houtput := cells_linearLayer net.layer2Weight
    (Vector.ofFn (maxZero ∘ preActivation2 net attr.features))
    (Vector.ofFn (maxZero ∘ preActivation1 net attr.features)) le_rfl (by decide)
  rw [withStale_self] at hdetect
  rw [cells_ofFn] at houtput
  rw [hdetect]
  exact houtput

theorem label_detect (ktime : Ktime) (net : Net) (attr : FlowAttribute) :
    (outputLine ktime (detect net attr)).label = label (referenceNetwork net attr.features) := by
  rw [label_outputLine, cells_detect]

/-- The printed label refines the reference network, and neither the line nor the map that remains
depends on the old buffers and the old index of the entry. -/
theorem receive_refines_referenceNetwork {frame : Frame} {f : Flow}
    (hframe : flowTuple frame = some f) (hhost : f.monitored = true)
    (hcloses : frame.tcpHdr.closes = true) (ktime : Ktime) (nn : NnMaps) {net : Net}
    (hnet : BpfMap.ArrayMap.lookup nn.nnParameters nn.activeIdx = some net) {flowMap : FlowMap}
    {updated : FlowAttribute}
    (hupdated :
      (updateFlowAttribute flowMap f frame.tcpHdr frame.ipHdr.packetLength ktime).lookup f =
        some updated) :
    (∃ line, printedLines (receive loadedProgs ktime nn frame flowMap) = [line] ∧
      line.label = label (referenceNetwork net updated.features)) ∧
    ∀ (hidden1 hidden2 : Vector S32 32) (nnIdx : S32),
      let stale := flowMap.modify f (withStale hidden1 hidden2 nnIdx)
      printedLines (receive loadedProgs ktime nn frame stale) =
          printedLines (receive loadedProgs ktime nn frame flowMap) ∧
        finalMap stale (receive loadedProgs ktime nn frame stale) =
          finalMap flowMap (receive loadedProgs ktime nn frame flowMap) := by
  have hlines := printedLines_of_closes hframe hhost hcloses ktime nn hnet hupdated
  have hfinal := finalMap_of_closes hframe hhost hcloses ktime nn hnet hupdated
  constructor
  · exact ⟨_, hlines, label_detect _ _ _⟩
  · intro hidden1 hidden2 nnIdx stale
    cases hattr : flowMap.lookup f with
    | none =>
      -- There is no entry to be stale.
      have hsame : stale = flowMap := by
        apply BpfMap.HashMap.ext_lookup
        intro other
        rcases eq_or_ne other f with rfl | hne
        · rw [BpfMap.HashMap.lookup_modify_self, hattr, Option.map_none]
        · exact BpfMap.HashMap.lookup_modify_of_ne _ _ hne
      rw [hsame]
      exact ⟨rfl, rfl⟩
    | some attr =>
      set record := recordPacket frame.tcpHdr frame.ipHdr.packetLength ktime with hrecord
      have hupdate {map : FlowMap} {old : FlowAttribute} (hold : map.lookup f = some old) :
          updateFlowAttribute map f frame.tcpHdr frame.ipHdr.packetLength ktime =
            map.modify f record := updateFlowAttribute_of_lookup_eq_some hold _ _ _
      have hstale : stale.lookup f = some (withStale hidden1 hidden2 nnIdx attr) := by
        rw [BpfMap.HashMap.lookup_modify_self, hattr]
        rfl
      have hstaleUpdated :
          (updateFlowAttribute stale f frame.tcpHdr frame.ipHdr.packetLength ktime).lookup f =
            some (record (withStale hidden1 hidden2 nnIdx attr)) := by
        rw [hupdate hstale, BpfMap.HashMap.lookup_modify_self, hstale]
        rfl
      have hrecorded : updated = record attr := by
        rw [hupdate hattr, BpfMap.HashMap.lookup_modify_self, hattr] at hupdated
        exact (Option.some.inj hupdated).symm
      have hdetect : detect net (pinned nn (record (withStale hidden1 hidden2 nnIdx attr))) =
          detect net (pinned nn (record attr)) :=
        detect_recorded_withStale net nn _ _ ktime hidden1 hidden2 nnIdx attr
      rw [printedLines_of_closes hframe hhost hcloses ktime nn hnet hstaleUpdated,
        finalMap_of_closes hframe hhost hcloses ktime nn hnet hstaleUpdated, hlines, hfinal,
        hrecorded, hdetect, hupdate hstale, hupdate hattr]
      refine ⟨rfl, ?_⟩
      simp only [stale, BpfMap.HashMap.modify_modify]
      rfl

/-- The refinement at a FIN of the monitored host that meets an all-zero entry, with the shipped
network in the selected slot. -/
theorem receive_refines_referenceNetwork_hostFrame :
    let ktime : Ktime := ⟨9, 9, 9, 9, 9⟩
    let nn : NnMaps := ⟨#v[Net.zero, shippedNet], #v[1]⟩
    let flowMap : FlowMap := BpfMap.HashMap.empty.updateNoExist (hostFlow 7) FlowAttribute.zero
    let updated := recordPacket (hostFrame 7 40 true).tcpHdr
      (hostFrame 7 40 true).ipHdr.packetLength ktime FlowAttribute.zero
    ∃ line, printedLines (receive loadedProgs ktime nn (hostFrame 7 40 true) flowMap) = [line] ∧
      line.label = label (referenceNetwork shippedNet updated.features) := by
  intro ktime nn flowMap updated
  have hentry : flowMap.lookup (hostFlow 7) = some FlowAttribute.zero :=
    BpfMap.HashMap.lookup_updateNoExist_self_of_canCreate
      (BpfMap.HashMap.canCreate_empty (by decide) _) _
  have hupdated : (updateFlowAttribute flowMap (hostFlow 7) (hostFrame 7 40 true).tcpHdr
      (hostFrame 7 40 true).ipHdr.packetLength ktime).lookup (hostFlow 7) = some updated := by
    rw [updateFlowAttribute_of_lookup_eq_some hentry, BpfMap.HashMap.lookup_modify_self, hentry]
    rfl
  exact (receive_refines_referenceNetwork (flowTuple_hostFrame 7 40 true) (monitored_hostFlow 7)
    (closes_hostFrame 7 40 true) ktime nn (show _ = some shippedNet from rfl) hupdated).1

end NNeBPF

import NNeBPF.Flow.Attribute
import NNeBPF.Mlp.Network

/-!
# The XDP programs

The seven programs of `xdp.bpf.c`, each as a function of the frame, the clock readings, the two
maps of the network and `flow_map`.  A program ends with `XDP_PASS` or asks for a tail call, and
`xdp_output_linear` prints one line.

Every program works on the entry of the frame's own flow only.  `entryStep` is what it does to this
entry, with no map in sight; `exec_of_lookup_eq_some` says that the program run on a map that holds
the entry is `entryStep` inside the map.
-/

namespace NNeBPF

open Mlp

/-- The maps of `params.bpf.h`: two slots for a `Net` and one index. -/
structure NnMaps where
  nnParameters : BpfMap.ArrayMap Net 2
  nnIdx : BpfMap.ArrayMap S32 1

/-- `nn_idx[0]`. -/
def NnMaps.activeIdx (nn : NnMaps) : S32 := nn.nnIdx[0]

@[simp]
theorem NnMaps.lookup_nnIdx (nn : NnMaps) :
    BpfMap.ArrayMap.lookup nn.nnIdx 0 = some nn.activeIdx := by
  rw [BpfMap.ArrayMap.lookup_eq_some_of_lt _ (by decide)]
  rfl

inductive XdpProgram
  | xdpProg
  | xdpPreprocessing
  | xdpInputLinear
  | xdpInputRelu
  | xdpHiddenLinear
  | xdpHiddenRelu
  | xdpOutputLinear
deriving DecidableEq

/-- How a program ends: `return XDP_PASS`, or a tail call with `XDP_PASS` behind it. -/
inductive Exit
  | pass
  | tailCall (index : S32)
deriving DecidableEq

/-- The line that `xdp_output_linear` prints. -/
structure Line where
  avgFeatureExtractionTime : U64
  detectionTime : U64
  label : ℕ
deriving DecidableEq

/-- What one program execution leaves behind. -/
structure Outcome where
  flowMap : FlowMap
  exit : Exit
  printk : Option Line

def Outcome.passed (flowMap : FlowMap) : Outcome := ⟨flowMap, .pass, none⟩

/-- What one program execution does to the entry of the frame's flow. -/
structure EntryOutcome where
  attr : FlowAttribute
  exit : Exit
  printk : Option Line

def EntryOutcome.passed (attr : FlowAttribute) : EntryOutcome := ⟨attr, .pass, none⟩

/-! ## The programs -/

def xdpProg (ktime : Ktime) (nn : NnMaps) (frame : Frame) (flowMap : FlowMap) : Outcome :=
  match flowTuple frame with
  | none => .passed flowMap
  | some f =>
    if f.monitored then
      if frame.length < sizeofEthHdr + sizeofIpHdr then .passed flowMap
      else if frame.length < sizeofEthHdr + sizeofIpHdr + sizeofTcpHdr then .passed flowMap
      else
        let tcp := frame.tcpHdr
        let flowMap := updateFlowAttribute flowMap f tcp frame.ipHdr.packetLength ktime
        if tcp.closes then
          match BpfMap.ArrayMap.lookup nn.nnIdx 0, flowMap.lookup f with
          | some idx, some _ =>
            { flowMap := flowMap.modify f fun attr ↦ { attr with nnIdx := idx }
              exit := .tailCall 0
              printk := none }
          | _, _ => .passed flowMap
        else .passed flowMap
    else .passed flowMap

/-- The beginning that all stages share: parse the frame again and look its flow up. -/
def onEntry (frame : Frame) (flowMap : FlowMap) (body : FlowAttribute → EntryOutcome) : Outcome :=
  match flowTuple frame with
  | none => .passed flowMap
  | some f =>
    match flowMap.lookup f with
    | none => .passed flowMap
    | some attr =>
      { flowMap := flowMap.modify f fun _ ↦ (body attr).attr
        exit := (body attr).exit
        printk := (body attr).printk }

/-- The lookup of the network under the index that `xdp_prog` stored in the entry. -/
def onNet (nn : NnMaps) (attr : FlowAttribute) (body : Net → EntryOutcome) : EntryOutcome :=
  match BpfMap.ArrayMap.lookup nn.nnParameters attr.nnIdx with
  | none => .passed attr
  | some net => body net

/-! What the stages write into the buffers of the entry. -/

namespace FlowAttribute

/-- `standard_scaler(x, attr_ptr->hidden2, net->mean, net->scale, 6)`. -/
def scale (net : Net) (attr : FlowAttribute) : FlowAttribute :=
  { attr with
    hidden2 := standardScaler attr.features attr.hidden2 net.mean net.scale (by decide) }

/-- `linear_layer(net->layer_0_weight, attr_ptr->hidden2, attr_ptr->hidden1, 32, 6)`. -/
def inputLinear (net : Net) (attr : FlowAttribute) : FlowAttribute :=
  { attr with
    hidden1 := linearLayer 32 6 net.layer0Weight attr.hidden2 attr.hidden1 (by decide) le_rfl }

/-- `relu(attr_ptr->hidden1, 32)`. -/
def inputRelu (attr : FlowAttribute) : FlowAttribute :=
  { attr with hidden1 := relu attr.hidden1 32 le_rfl }

/-- `linear_layer(net->layer_1_weight, attr_ptr->hidden1, attr_ptr->hidden2, 32, 32)`. -/
def hiddenLinear (net : Net) (attr : FlowAttribute) : FlowAttribute :=
  { attr with
    hidden2 := linearLayer 32 32 net.layer1Weight attr.hidden1 attr.hidden2 le_rfl le_rfl }

/-- `relu(attr_ptr->hidden2, 32)`. -/
def hiddenRelu (attr : FlowAttribute) : FlowAttribute :=
  { attr with hidden2 := relu attr.hidden2 32 le_rfl }

/-- `linear_layer(net->layer_2_weight, attr_ptr->hidden2, attr_ptr->hidden1, 2, 32)`. -/
def outputLinear (net : Net) (attr : FlowAttribute) : FlowAttribute :=
  { attr with
    hidden1 := linearLayer 2 32 net.layer2Weight attr.hidden2 attr.hidden1 le_rfl (by decide) }

end FlowAttribute

def preprocessingBody (nn : NnMaps) (attr : FlowAttribute) : EntryOutcome :=
  onNet nn attr fun net ↦ ⟨attr.scale net, .tailCall 1, none⟩

def inputLinearBody (nn : NnMaps) (attr : FlowAttribute) : EntryOutcome :=
  onNet nn attr fun net ↦ ⟨attr.inputLinear net, .tailCall 2, none⟩

def inputReluBody (attr : FlowAttribute) : EntryOutcome := ⟨attr.inputRelu, .tailCall 3, none⟩

def hiddenLinearBody (nn : NnMaps) (attr : FlowAttribute) : EntryOutcome :=
  onNet nn attr fun net ↦ ⟨attr.hiddenLinear net, .tailCall 4, none⟩

def hiddenReluBody (attr : FlowAttribute) : EntryOutcome := ⟨attr.hiddenRelu, .tailCall 5, none⟩

/-- The line is printed from the entry as the last layer leaves it. -/
def outputLine (ktime : Ktime) (attr : FlowAttribute) : Line where
  avgFeatureExtractionTime := attr.totalFeatureExtractionTime / attr.numPacket
  detectionTime := ktime.printTime - attr.detectionStartTime
  label := if (attr.hidden1[1]).slt attr.hidden1[0] then 0 else 1

def outputLinearBody (ktime : Ktime) (nn : NnMaps) (attr : FlowAttribute) : EntryOutcome :=
  onNet nn attr fun net ↦
    ⟨attr.outputLinear net, .pass, some (outputLine ktime (attr.outputLinear net))⟩

def xdpPreprocessing (nn : NnMaps) (frame : Frame) (flowMap : FlowMap) : Outcome :=
  onEntry frame flowMap (preprocessingBody nn)

def xdpInputLinear (nn : NnMaps) (frame : Frame) (flowMap : FlowMap) : Outcome :=
  onEntry frame flowMap (inputLinearBody nn)

def xdpInputRelu (frame : Frame) (flowMap : FlowMap) : Outcome :=
  onEntry frame flowMap inputReluBody

def xdpHiddenLinear (nn : NnMaps) (frame : Frame) (flowMap : FlowMap) : Outcome :=
  onEntry frame flowMap (hiddenLinearBody nn)

def xdpHiddenRelu (frame : Frame) (flowMap : FlowMap) : Outcome :=
  onEntry frame flowMap hiddenReluBody

def xdpOutputLinear (ktime : Ktime) (nn : NnMaps) (frame : Frame) (flowMap : FlowMap) : Outcome :=
  onEntry frame flowMap (outputLinearBody ktime nn)

/-- One execution of a program. -/
def exec (program : XdpProgram) (ktime : Ktime) (nn : NnMaps) (frame : Frame) (flowMap : FlowMap) :
    Outcome :=
  match program with
  | .xdpProg => xdpProg ktime nn frame flowMap
  | .xdpPreprocessing => xdpPreprocessing nn frame flowMap
  | .xdpInputLinear => xdpInputLinear nn frame flowMap
  | .xdpInputRelu => xdpInputRelu frame flowMap
  | .xdpHiddenLinear => xdpHiddenLinear nn frame flowMap
  | .xdpHiddenRelu => xdpHiddenRelu frame flowMap
  | .xdpOutputLinear => xdpOutputLinear ktime nn frame flowMap

/-! ## Programs on one entry -/

/-- `xdp_prog` on the entry of a known flow `f`. -/
def progBody (f : Flow) (ktime : Ktime) (nn : NnMaps) (frame : Frame) (attr : FlowAttribute) :
    EntryOutcome :=
  if f.monitored then
    let recorded := recordPacket frame.tcpHdr frame.ipHdr.packetLength ktime attr
    if frame.tcpHdr.closes then
      { attr := { recorded with nnIdx := nn.activeIdx }, exit := .tailCall 0, printk := none }
    else .passed recorded
  else .passed attr

/-- One execution of a program, seen from the entry of the flow `f` of its frame. -/
def entryStep (f : Flow) (program : XdpProgram) (ktime : Ktime) (nn : NnMaps) (frame : Frame)
    (attr : FlowAttribute) : EntryOutcome :=
  match program with
  | .xdpProg => progBody f ktime nn frame attr
  | .xdpPreprocessing => preprocessingBody nn attr
  | .xdpInputLinear => inputLinearBody nn attr
  | .xdpInputRelu => inputReluBody attr
  | .xdpHiddenLinear => hiddenLinearBody nn attr
  | .xdpHiddenRelu => hiddenReluBody attr
  | .xdpOutputLinear => outputLinearBody ktime nn attr

/-- An outcome on the entry of `f`, put back into the map. -/
def EntryOutcome.inMap (outcome : EntryOutcome) (flowMap : FlowMap) (f : Flow) : Outcome where
  flowMap := flowMap.modify f fun _ ↦ outcome.attr
  exit := outcome.exit
  printk := outcome.printk

section

variable {frame : Frame} {f : Flow} {flowMap : FlowMap} {attr : FlowAttribute}

/-- Writing back what a lookup returned changes nothing. -/
theorem modify_lookup (hattr : flowMap.lookup f = some attr) :
    flowMap.modify f (fun _ ↦ attr) = flowMap := by
  apply BpfMap.HashMap.ext_lookup
  intro other
  rcases eq_or_ne other f with rfl | hne
  · rw [BpfMap.HashMap.lookup_modify_self, hattr]
    rfl
  · rw [BpfMap.HashMap.lookup_modify_of_ne _ _ hne]

/-- A write that reads the old value is a write of the new value. -/
theorem modify_eq_of_lookup (hattr : flowMap.lookup f = some attr)
    (change : FlowAttribute → FlowAttribute) :
    flowMap.modify f change = flowMap.modify f (fun _ ↦ change attr) := by
  apply BpfMap.HashMap.ext_lookup
  intro other
  rcases eq_or_ne other f with rfl | hne
  · simp [hattr]
  · rw [BpfMap.HashMap.lookup_modify_of_ne _ _ hne, BpfMap.HashMap.lookup_modify_of_ne _ _ hne]

theorem onEntry_of_lookup_eq_some (hframe : flowTuple frame = some f)
    (hattr : flowMap.lookup f = some attr) (body : FlowAttribute → EntryOutcome) :
    onEntry frame flowMap body = (body attr).inMap flowMap f := by
  simp only [onEntry, hframe, hattr, EntryOutcome.inMap]

/-- `xdp_prog` on an accepted frame: its two repeated length checks never fail. -/
theorem xdpProg_of_flowTuple_eq_some (hframe : flowTuple frame = some f) (ktime : Ktime)
    (nn : NnMaps) (flowMap : FlowMap) :
    xdpProg ktime nn frame flowMap =
      if f.monitored then
        let updated :=
          updateFlowAttribute flowMap f frame.tcpHdr frame.ipHdr.packetLength ktime
        if frame.tcpHdr.closes then
          match updated.lookup f with
          | some _ =>
            { flowMap := updated.modify f fun attr ↦ { attr with nnIdx := nn.activeIdx }
              exit := .tailCall 0
              printk := none }
          | none => .passed updated
        else .passed updated
      else .passed flowMap := by
  have hlength := length_of_flowTuple hframe
  have hip : ¬ frame.length < sizeofEthHdr + sizeofIpHdr := by
    unfold sizeofTcpHdr at hlength
    omega
  have htcp : ¬ frame.length < sizeofEthHdr + sizeofIpHdr + sizeofTcpHdr := not_lt.mpr hlength
  simp only [xdpProg, hframe, hip, htcp, if_false, NnMaps.lookup_nnIdx]
  congr 3
  cases (updateFlowAttribute flowMap f frame.tcpHdr frame.ipHdr.packetLength ktime).lookup f <;> rfl

/-- Every program run on a map with an entry for the frame's flow is `entryStep` on this entry. -/
theorem exec_of_lookup_eq_some (hframe : flowTuple frame = some f)
    (hattr : flowMap.lookup f = some attr) (program : XdpProgram) (ktime : Ktime) (nn : NnMaps) :
    exec program ktime nn frame flowMap =
      (entryStep f program ktime nn frame attr).inMap flowMap f := by
  cases program with
  | xdpProg =>
    simp only [exec, entryStep, progBody]
    rw [xdpProg_of_flowTuple_eq_some hframe, updateFlowAttribute_of_lookup_eq_some hattr]
    simp only [BpfMap.HashMap.lookup_modify_self, hattr, Option.map_some,
      BpfMap.HashMap.modify_modify]
    cases f.monitored with
    | false => simp [EntryOutcome.inMap, EntryOutcome.passed, Outcome.passed, modify_lookup hattr]
    | true =>
      cases frame.tcpHdr.closes with
      | false =>
        simp only [if_true, Bool.false_eq_true, if_false, EntryOutcome.inMap,
          EntryOutcome.passed, Outcome.passed]
        rw [modify_eq_of_lookup hattr]
      | true =>
        simp only [if_true, EntryOutcome.inMap]
        rw [modify_eq_of_lookup hattr]
        rfl
  | xdpPreprocessing => exact onEntry_of_lookup_eq_some hframe hattr _
  | xdpInputLinear => exact onEntry_of_lookup_eq_some hframe hattr _
  | xdpInputRelu => exact onEntry_of_lookup_eq_some hframe hattr _
  | xdpHiddenLinear => exact onEntry_of_lookup_eq_some hframe hattr _
  | xdpHiddenRelu => exact onEntry_of_lookup_eq_some hframe hattr _
  | xdpOutputLinear => exact onEntry_of_lookup_eq_some hframe hattr _

theorem exec_of_flowTuple_eq_none (hframe : flowTuple frame = none) (program : XdpProgram)
    (ktime : Ktime) (nn : NnMaps) (flowMap : FlowMap) :
    exec program ktime nn frame flowMap = .passed flowMap := by
  cases program <;>
    simp only [exec, xdpProg, xdpPreprocessing, xdpInputLinear, xdpInputRelu, xdpHiddenLinear,
      xdpHiddenRelu, xdpOutputLinear, onEntry, hframe]

theorem lookup_onEntry_of_ne (hframe : flowTuple frame = some f) {other : Flow} (hne : other ≠ f)
    (flowMap : FlowMap) (body : FlowAttribute → EntryOutcome) :
    (onEntry frame flowMap body).flowMap.lookup other = flowMap.lookup other := by
  simp only [onEntry, hframe]
  split
  · rfl
  · exact BpfMap.HashMap.lookup_modify_of_ne _ _ hne

theorem lookup_xdpProg_of_ne (hframe : flowTuple frame = some f) {other : Flow} (hne : other ≠ f)
    (ktime : Ktime) (nn : NnMaps) (flowMap : FlowMap) :
    (xdpProg ktime nn frame flowMap).flowMap.lookup other = flowMap.lookup other := by
  have hupdate := lookup_updateFlowAttribute_of_ne flowMap frame.tcpHdr
    frame.ipHdr.packetLength ktime hne
  rw [xdpProg_of_flowTuple_eq_some hframe]
  dsimp only
  split
  · split
    · split
      · rw [BpfMap.HashMap.lookup_modify_of_ne _ _ hne, hupdate]
      · exact hupdate
    · exact hupdate
  · rfl

/-- No program touches the entry of another flow. -/
theorem lookup_exec_of_ne (hframe : flowTuple frame = some f) {other : Flow} (hne : other ≠ f)
    (program : XdpProgram) (ktime : Ktime) (nn : NnMaps) (flowMap : FlowMap) :
    (exec program ktime nn frame flowMap).flowMap.lookup other = flowMap.lookup other := by
  cases program with
  | xdpProg => exact lookup_xdpProg_of_ne hframe hne ktime nn flowMap
  | xdpPreprocessing => exact lookup_onEntry_of_ne hframe hne flowMap _
  | xdpInputLinear => exact lookup_onEntry_of_ne hframe hne flowMap _
  | xdpInputRelu => exact lookup_onEntry_of_ne hframe hne flowMap _
  | xdpHiddenLinear => exact lookup_onEntry_of_ne hframe hne flowMap _
  | xdpHiddenRelu => exact lookup_onEntry_of_ne hframe hne flowMap _
  | xdpOutputLinear => exact lookup_onEntry_of_ne hframe hne flowMap _

end

end NNeBPF

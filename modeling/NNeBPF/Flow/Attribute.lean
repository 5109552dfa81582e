import NNeBPF.Library.BpfMap
import NNeBPF.Xdp.Packet

/-!
# Flow entries

The value type of `flow_map` from `common.h` and the two functions of `handler.bpf.h` that keep it:
`init_flow_attribute` for a new entry and `update_flow_attribute` for every recorded packet.  The
fields are signed, but a comparison or a subtraction with a `u64` operand is carried out unsigned.
-/

namespace NNeBPF

/-- `struct flow_attribute`. -/
structure FlowAttribute where
  numPacket : S64
  minPacketLength : S64
  maxPacketLength : S64
  maxDuration : S64
  dstPort : S64
  headerLength : S64
  lastPacketTime : S64
  status : S64
  totalFeatureExtractionTime : U64
  detectionStartTime : U64
  nnIdx : S32
  hidden1 : Vector S32 32
  hidden2 : Vector S32 32
deriving DecidableEq

/-- `struct flow_attribute attr = {};` -/
def FlowAttribute.zero : FlowAttribute where
  numPacket := 0
  minPacketLength := 0
  maxPacketLength := 0
  maxDuration := 0
  dstPort := 0
  headerLength := 0
  lastPacketTime := 0
  status := 0
  totalFeatureExtractionTime := 0
  detectionStartTime := 0
  nnIdx := 0
  hidden1 := Vector.replicate 32 0
  hidden2 := Vector.replicate 32 0

/-- The feature vector that `xdp_preprocessing` hands to `standard_scaler`. -/
def FlowAttribute.features (attr : FlowAttribute) : Vector S64 6 :=
  #v[attr.maxPacketLength, attr.maxDuration, attr.minPacketLength, attr.dstPort,
    attr.headerLength, attr.numPacket]

/-- `MAX_PACKET_REACORD`. -/
def maxPacketReacord : ℕ := 8192

abbrev FlowMap := BpfMap.HashMap Flow FlowAttribute maxPacketReacord

/-- The values that the calls of `bpf_ktime_get_ns` return in one program execution, in the order
of the calls in `update_flow_attribute`; `printTime` is the one call of `xdp_output_linear`. -/
structure Ktime where
  packetTime : U64
  extractionStartTime : U64
  extractionEndTime : U64
  detectionStartTime : U64
  printTime : U64

def initFlowAttribute (attr : FlowAttribute) : FlowAttribute :=
  { attr with
    numPacket := 0
    minPacketLength := 0x3fffffffffffffff
    maxDuration := 0
    maxPacketLength := 0
    dstPort := 0
    headerLength := 0
    lastPacketTime := 0
    status := 0 }

/-- The entry that `update_flow_attribute` builds for a flow that it does not find. -/
def newFlowAttribute (tcp : TcpHdr) (ktime : Ktime) : FlowAttribute :=
  { initFlowAttribute FlowAttribute.zero with
    lastPacketTime := ktime.packetTime
    dstPort := (bpfNtohs tcp.dest).setWidth 64 }

/-- `u64 duration = packet_time - attr_ptr->last_packet_time`. -/
def FlowAttribute.duration (attr : FlowAttribute) (ktime : Ktime) : U64 :=
  ktime.packetTime - attr.lastPacketTime

/-- `tcp->doff * 4` added to an `s64`. -/
def TcpHdr.headerBytes (tcp : TcpHdr) : S64 := (tcp.doff.setWidth 32 * 4).signExtend 64

/-- The second half of `update_flow_attribute`: one packet is recorded in the entry of its flow. -/
def recordPacket (tcp : TcpHdr) (packetLength : U64) (ktime : Ktime) (attr : FlowAttribute) :
    FlowAttribute :=
  { attr with
    numPacket := attr.numPacket + 1
    minPacketLength :=
      if packetLength < attr.minPacketLength then packetLength else attr.minPacketLength
    maxPacketLength :=
      if packetLength > attr.maxPacketLength then packetLength else attr.maxPacketLength
    maxDuration :=
      if attr.duration ktime > attr.maxDuration then attr.duration ktime else attr.maxDuration
    lastPacketTime := ktime.packetTime
    headerLength := attr.headerLength + tcp.headerBytes
    totalFeatureExtractionTime :=
      attr.totalFeatureExtractionTime + (ktime.extractionEndTime - ktime.extractionStartTime)
    detectionStartTime :=
      if tcp.closes then ktime.detectionStartTime else attr.detectionStartTime }

/-- The first half of `update_flow_attribute`: an absent flow gets an entry if the map has room. -/
def createFlow (flowMap : FlowMap) (f : Flow) (tcp : TcpHdr) (ktime : Ktime) : FlowMap :=
  match flowMap.lookup f with
  | some _ => flowMap
  | none => flowMap.updateNoExist f (newFlowAttribute tcp ktime)

/-- `update_flow_attribute`.  Without an entry after the second lookup it gives up. -/
def updateFlowAttribute (flowMap : FlowMap) (f : Flow) (tcp : TcpHdr) (packetLength : U64)
    (ktime : Ktime) : FlowMap :=
  let flowMap := createFlow flowMap f tcp ktime
  match flowMap.lookup f with
  | none => flowMap
  | some _ => flowMap.modify f (recordPacket tcp packetLength ktime)

/-! ## Unsigned extremes -/

def unsignedMax (x y : U64) : U64 := if y > x then y else x

def unsignedMin (x y : U64) : U64 := if y < x then y else x

@[simp]
theorem toNat_unsignedMax (x y : U64) : (unsignedMax x y).toNat = max x.toNat y.toNat := by
  unfold unsignedMax
  split_ifs with h
  · exact (max_eq_right (BitVec.lt_def.mp h).le).symm
  · exact (max_eq_left (not_lt.mp fun hlt ↦ h (BitVec.lt_def.mpr hlt))).symm

@[simp]
theorem toNat_unsignedMin (x y : U64) : (unsignedMin x y).toNat = min x.toNat y.toNat := by
  unfold unsignedMin
  split_ifs with h
  · exact (min_eq_right (BitVec.lt_def.mp h).le).symm
  · exact (min_eq_left (not_lt.mp fun hlt ↦ h (BitVec.lt_def.mpr hlt))).symm

theorem unsignedMax_assoc (x y z : U64) :
    unsignedMax (unsignedMax x y) z = unsignedMax x (unsignedMax y z) := by
  apply BitVec.eq_of_toNat_eq
  simp [max_assoc]

theorem unsignedMin_assoc (x y z : U64) :
    unsignedMin (unsignedMin x y) z = unsignedMin x (unsignedMin y z) := by
  apply BitVec.eq_of_toNat_eq
  simp [min_assoc]

@[simp]
theorem unsignedMax_zero_left (x : U64) : unsignedMax 0 x = x := by
  apply BitVec.eq_of_toNat_eq
  simp

@[simp]
theorem unsignedMax_zero_right (x : U64) : unsignedMax x 0 = x := by
  apply BitVec.eq_of_toNat_eq
  simp

/-! The three fields of an entry that are extremes. -/

section

variable (tcp : TcpHdr) (packetLength : U64) (ktime : Ktime) (attr : FlowAttribute)

theorem maxPacketLength_recordPacket :
    (recordPacket tcp packetLength ktime attr).maxPacketLength =
      unsignedMax attr.maxPacketLength packetLength := rfl

theorem minPacketLength_recordPacket :
    (recordPacket tcp packetLength ktime attr).minPacketLength =
      unsignedMin attr.minPacketLength packetLength := rfl

theorem maxDuration_recordPacket :
    (recordPacket tcp packetLength ktime attr).maxDuration =
      unsignedMax attr.maxDuration (attr.duration ktime) := rfl

end

/-- Without an underflow the duration is the time since the last packet. -/
theorem FlowAttribute.toNat_duration_of_le {attr : FlowAttribute} {ktime : Ktime}
    (h : attr.lastPacketTime ≤ ktime.packetTime) :
    (attr.duration ktime).toNat = ktime.packetTime.toNat - attr.lastPacketTime.toNat :=
  BitVec.toNat_sub_of_le h

/-! ## Header lengths -/

theorem TcpHdr.toInt_headerBytes (tcp : TcpHdr) :
    tcp.headerBytes.toInt = 4 * (tcp.doff.toNat : ℤ) := by
  have hdoff := tcp.doff.isLt
  have hfour : (4 : S32).toInt = 4 := by decide
  unfold TcpHdr.headerBytes
  rw [BitVec.toInt_signExtend_of_le (by decide), BitVec.toInt_mul,
    toInt_setWidth_of_lt _ (by decide), hfour, Int.bmod_eq_of_le (by omega) (by omega)]
  omega

/-- A count below `2^63` is its own signed value. -/
theorem toInt_ofNat_of_lt {count : ℕ} (h : count < 2 ^ 63) :
    (BitVec.ofNat 64 count).toInt = count := by
  have hmod : count % 2 ^ 64 = count := Nat.mod_eq_of_lt (by omega)
  rw [BitVec.toInt_eq_toNat_of_lt (by rw [BitVec.toNat_ofNat, hmod]; omega), BitVec.toNat_ofNat,
    hmod]

theorem headerBytes_eq_ofNat (tcp : TcpHdr) :
    tcp.headerBytes = BitVec.ofNat 64 (4 * tcp.doff.toNat) := by
  have hdoff := tcp.doff.isLt
  apply BitVec.eq_of_toInt_eq
  rw [TcpHdr.toInt_headerBytes, toInt_ofNat_of_lt (by omega)]
  norm_num

/-! ## What an update does to the map -/

theorem createFlow_of_lookup_eq_some {flowMap : FlowMap} {f : Flow} {attr : FlowAttribute}
    (h : flowMap.lookup f = some attr) (tcp : TcpHdr) (ktime : Ktime) :
    createFlow flowMap f tcp ktime = flowMap := by
  simp only [createFlow, h]

theorem createFlow_of_lookup_eq_none {flowMap : FlowMap} {f : Flow}
    (h : flowMap.lookup f = none) (tcp : TcpHdr) (ktime : Ktime) :
    createFlow flowMap f tcp ktime = flowMap.updateNoExist f (newFlowAttribute tcp ktime) := by
  simp only [createFlow, h]

theorem lookup_createFlow_of_ne (flowMap : FlowMap) {f other : Flow} (tcp : TcpHdr)
    (ktime : Ktime) (h : other ≠ f) :
    (createFlow flowMap f tcp ktime).lookup other = flowMap.lookup other := by
  unfold createFlow
  split
  · rfl
  · exact flowMap.lookup_updateNoExist_of_ne _ h

/-- A recorded packet of a known flow changes the entry of this flow in place. -/
theorem updateFlowAttribute_of_lookup_eq_some {flowMap : FlowMap} {f : Flow}
    {attr : FlowAttribute} (h : flowMap.lookup f = some attr) (tcp : TcpHdr) (packetLength : U64)
    (ktime : Ktime) :
    updateFlowAttribute flowMap f tcp packetLength ktime =
      flowMap.modify f (recordPacket tcp packetLength ktime) := by
  simp only [updateFlowAttribute, createFlow_of_lookup_eq_some h, h]

/-- The first packet of a flow is recorded in a new entry when the map has room. -/
theorem lookup_updateFlowAttribute_of_canCreate {flowMap : FlowMap} {f : Flow}
    (h : flowMap.CanCreate f) (tcp : TcpHdr) (packetLength : U64) (ktime : Ktime) :
    (updateFlowAttribute flowMap f tcp packetLength ktime).lookup f =
      some (recordPacket tcp packetLength ktime (newFlowAttribute tcp ktime)) := by
  have habsent : flowMap.lookup f = none := (flowMap.lookup_eq_none_iff f).mpr h.1
  have hcreated :
      (createFlow flowMap f tcp ktime).lookup f = some (newFlowAttribute tcp ktime) := by
    rw [createFlow_of_lookup_eq_none habsent]
    exact BpfMap.HashMap.lookup_updateNoExist_self_of_canCreate h _
  simp only [updateFlowAttribute, hcreated]
  rw [BpfMap.HashMap.lookup_modify_self, hcreated]
  rfl

/-- The entries of other flows do not change. -/
theorem lookup_updateFlowAttribute_of_ne (flowMap : FlowMap) {f other : Flow} (tcp : TcpHdr)
    (packetLength : U64) (ktime : Ktime) (h : other ≠ f) :
    (updateFlowAttribute flowMap f tcp packetLength ktime).lookup other = flowMap.lookup other := by
  have hcreate := lookup_createFlow_of_ne flowMap tcp ktime h
  unfold updateFlowAttribute
  simp only
  split
  · exact hcreate
  · rw [BpfMap.HashMap.lookup_modify_of_ne _ _ h, hcreate]

/-- A flow that is known or finds room has its packet recorded, in a new entry if it was unknown. -/
theorem lookup_updateFlowAttribute_self {flowMap : FlowMap} {f : Flow}
    (h : f ∈ flowMap.keys ∨ flowMap.keys.card < maxPacketReacord) (tcp : TcpHdr)
    (packetLength : U64) (ktime : Ktime) :
    (updateFlowAttribute flowMap f tcp packetLength ktime).lookup f =
      some (recordPacket tcp packetLength ktime
        ((flowMap.lookup f).getD (newFlowAttribute tcp ktime))) := by
  cases hattr : flowMap.lookup f with
  | some attr =>
    rw [updateFlowAttribute_of_lookup_eq_some hattr, BpfMap.HashMap.lookup_modify_self, hattr]
    rfl
  | none =>
    have habsent : f ∉ flowMap.keys := (flowMap.lookup_eq_none_iff f).mp hattr
    exact lookup_updateFlowAttribute_of_canCreate ⟨habsent, h.resolve_left habsent⟩ _ _ _

theorem keys_updateFlowAttribute {flowMap : FlowMap} {f : Flow}
    (h : f ∈ flowMap.keys ∨ flowMap.keys.card < maxPacketReacord) (tcp : TcpHdr)
    (packetLength : U64) (ktime : Ktime) :
    (updateFlowAttribute flowMap f tcp packetLength ktime).keys = insert f flowMap.keys := by
  have hself := lookup_updateFlowAttribute_self h tcp packetLength ktime
  ext other
  rw [BpfMap.HashMap.mem_keys_iff, Finset.mem_insert, BpfMap.HashMap.mem_keys_iff]
  rcases eq_or_ne other f with rfl | hne
  · exact ⟨fun _ ↦ Or.inl rfl, fun _ ↦ ⟨_, hself⟩⟩
  · rw [lookup_updateFlowAttribute_of_ne _ _ _ _ hne]
    exact ⟨Or.inr, fun hor ↦ hor.resolve_left hne⟩

/-- A packet of an unknown flow leaves a full map as it is. -/
theorem updateFlowAttribute_of_full {flowMap : FlowMap} {f : Flow}
    (habsent : flowMap.lookup f = none) (hfull : flowMap.keys.card = maxPacketReacord)
    (tcp : TcpHdr) (packetLength : U64) (ktime : Ktime) :
    updateFlowAttribute flowMap f tcp packetLength ktime = flowMap := by
  have hcreate : ¬ flowMap.CanCreate f := fun h ↦ absurd h.2 (by omega)
  have hkept : createFlow flowMap f tcp ktime = flowMap := by
    rw [createFlow_of_lookup_eq_none habsent]
    exact BpfMap.HashMap.updateNoExist_of_not_canCreate hcreate _
  simp only [updateFlowAttribute, hkept, habsent]

/-- An entry that an update leaves for its flow has recorded the packet. -/
theorem eq_recordPacket_of_lookup {flowMap : FlowMap} {f : Flow} {tcp : TcpHdr}
    {packetLength : U64} {ktime : Ktime} {attr : FlowAttribute}
    (hattr : (updateFlowAttribute flowMap f tcp packetLength ktime).lookup f = some attr) :
    attr = recordPacket tcp packetLength ktime
      ((flowMap.lookup f).getD (newFlowAttribute tcp ktime)) := by
  by_cases hroom : f ∈ flowMap.keys ∨ flowMap.keys.card < maxPacketReacord
  · have hself := lookup_updateFlowAttribute_self hroom tcp packetLength ktime
    exact Option.some.inj (hattr.symm.trans hself)
  · -- A full map refuses the flow.
    rw [not_or, not_lt] at hroom
    have habsent : flowMap.lookup f = none := (flowMap.lookup_eq_none_iff f).mpr hroom.1
    have hfull : flowMap.keys.card = maxPacketReacord := le_antisymm flowMap.card_keys_le hroom.2
    rw [updateFlowAttribute_of_full habsent hfull, habsent] at hattr
    cases hattr

end NNeBPF

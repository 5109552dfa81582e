import NNeBPF.Multicore.Serial
import NNeBPF.Xdp.Parser

/-!
# What of a frame matters

The programs read eleven header fields, all of them in the first 54 bytes of a frame and none before
its length has been checked.  Everything else in a frame, its payload, the addresses of the link and
the other header fields, is ignored, and so is every frame that the parser does not accept.

This is stated for whole interleavings: with the other frames left out, and of each accepted frame
no more than the shortest frame with the same eleven fields, the map and the log stay as they are.
-/

namespace NNeBPF

namespace Frame

/-! ## Loads inside the frame -/

/-- A load that fails at or behind `data_end`. -/
def peek8 (frame : Frame) (offset : ℕ) : Option (BitVec 8) := frame[offset]?

def peek16 (frame : Frame) (offset : ℕ) : Option (BitVec 16) :=
  (frame.peek8 (offset + 1)).bind fun high ↦ (frame.peek8 offset).map fun low ↦ high ++ low

def peek32 (frame : Frame) (offset : ℕ) : Option (BitVec 32) :=
  (frame.peek16 (offset + 2)).bind fun high ↦ (frame.peek16 offset).map fun low ↦ high ++ low

section

variable {frame : Frame} {offset : ℕ}

theorem peek8_of_lt (h : offset < frame.length) :
    frame.peek8 offset = some (frame.load8 offset) := by
  rw [peek8, load8, List.getD_eq_getElem?_getD, List.getElem?_eq_getElem h]
  rfl

theorem peek16_of_lt (h : offset + 1 < frame.length) :
    frame.peek16 offset = some (frame.load16 offset) := by
  rw [peek16, peek8_of_lt h, peek8_of_lt (by omega)]
  rfl

theorem peek32_of_lt (h : offset + 3 < frame.length) :
    frame.peek32 offset = some (frame.load32 offset) := by
  rw [peek32, peek16_of_lt (by omega), peek16_of_lt (by omega)]
  rfl

end

/-- The header fields that the programs load from an accepted frame. -/
def checkedHeaders (frame : Frame) : Option (IpHdr × TcpHdr) :=
  (frame.peek8 14).bind fun versionIhl ↦ (frame.peek16 16).bind fun totLen ↦
  (frame.peek8 23).bind fun protocol ↦ (frame.peek32 26).bind fun saddr ↦
  (frame.peek32 30).bind fun daddr ↦ (frame.peek16 34).bind fun source ↦
  (frame.peek16 36).bind fun dest ↦ (frame.peek8 46).bind fun doffByte ↦
  (frame.peek8 47).map fun flags ↦
    (⟨versionIhl.extractLsb' 0 4, totLen, protocol, saddr, daddr⟩,
      ⟨source, dest, doffByte.extractLsb' 4 4, flags.getLsbD 0, flags.getLsbD 2⟩)

/-- `flow_tuple` with loads that can fail.  The outer `none` is a load outside the frame. -/
def checkedFlowTuple (frame : Frame) : Option (Option Flow) :=
  if frame.length < sizeofEthHdr then some none
  else (frame.peek16 12).bind fun hProto ↦
    if hProto ≠ bpfNtohs ethPIp then some none
    else if frame.length < sizeofEthHdr + sizeofIpHdr then some none
    else (frame.peek8 23).bind fun protocol ↦
      if protocol ≠ ipprotoTcp then some none
      else if frame.length < sizeofEthHdr + sizeofIpHdr + sizeofTcpHdr then some none
      else (frame.peek32 26).bind fun saddr ↦ (frame.peek32 30).bind fun daddr ↦
        (frame.peek16 34).bind fun source ↦ (frame.peek16 36).map fun dest ↦
          some
            { saddr := saddr
              daddr := daddr
              sport := source.setWidth 32
              dport := dest.setWidth 32 }

/-- All fields of an accepted frame are loaded from inside it. -/
theorem checkedHeaders_of_accepted {frame : Frame} {f : Flow} (h : flowTuple frame = some f) :
    frame.checkedHeaders = some (frame.ipHdr, frame.tcpHdr) := by
  have hlength : 54 ≤ frame.length := length_of_flowTuple h
  unfold checkedHeaders
  rw [peek8_of_lt (by omega), peek16_of_lt (by omega), peek8_of_lt (by omega),
    peek32_of_lt (by omega), peek32_of_lt (by omega), peek16_of_lt (by omega),
    peek16_of_lt (by omega), peek8_of_lt (by omega), peek8_of_lt (by omega)]
  rfl

/-- No load of the parser leaves the frame, whatever the frame. -/
theorem checkedFlowTuple_eq (frame : Frame) :
    frame.checkedFlowTuple = some (flowTuple frame) := by
  unfold checkedFlowTuple flowTuple
  by_cases heth : frame.length < sizeofEthHdr
  · rw [if_pos heth, if_pos heth]
  · have hethLength : 14 ≤ frame.length := not_lt.mp heth
    rw [if_neg heth, if_neg heth, peek16_of_lt (by omega), Option.bind_some]
    by_cases htype : frame.load16 12 ≠ bpfNtohs ethPIp
    · have hproto : frame.ethHdr.hProto ≠ bpfNtohs ethPIp := htype
      rw [if_pos htype, if_pos hproto]
    · have hproto : ¬ frame.ethHdr.hProto ≠ bpfNtohs ethPIp := htype
      rw [if_neg htype, if_neg hproto]
      by_cases hip : frame.length < sizeofEthHdr + sizeofIpHdr
      · rw [if_pos hip, if_pos hip]
      · have hipLength : 34 ≤ frame.length := not_lt.mp hip
        rw [if_neg hip, if_neg hip, peek8_of_lt (by omega), Option.bind_some]
        by_cases htcp : frame.load8 23 ≠ ipprotoTcp
        · have hprotocol : frame.ipHdr.protocol ≠ ipprotoTcp := htcp
          rw [if_pos htcp, if_pos hprotocol]
        · have hprotocol : ¬ frame.ipHdr.protocol ≠ ipprotoTcp := htcp
          rw [if_neg htcp, if_neg hprotocol]
          by_cases hlength : frame.length < sizeofEthHdr + sizeofIpHdr + sizeofTcpHdr
          · rw [if_pos hlength, if_pos hlength]
          · have htcpLength : 54 ≤ frame.length := not_lt.mp hlength
            rw [if_neg hlength, if_neg hlength, peek32_of_lt (by omega), peek32_of_lt (by omega),
              peek16_of_lt (by omega), peek16_of_lt (by omega)]
            rfl

/-! ## The shortest frame with the same fields -/

/-- No payload, the IP version 4, and zeros wherever else no field is read. -/
def stripped (frame : Frame) : Frame := Frame.build frame.ipHdr frame.tcpHdr

end Frame

section

variable {frame : Frame} {f : Flow}

theorem flowTuple_stripped (hframe : flowTuple frame = some f) :
    flowTuple frame.stripped = some f := by
  have haccepted : (flowTuple frame).isSome := by rw [hframe]; rfl
  have hprotocol : frame.ipHdr.protocol = ipprotoTcp :=
    ((isSome_flowTuple_iff frame).mp haccepted).protocol
  calc
    flowTuple frame.stripped =
        some
          { saddr := frame.ipHdr.saddr
            daddr := frame.ipHdr.daddr
            sport := frame.tcpHdr.source.setWidth 32
            dport := frame.tcpHdr.dest.setWidth 32 } := flowTuple_build _ _ hprotocol
    _ = some f := by rw [eq_of_flowTuple hframe]

/-- Programs that only parse a frame do the same on every frame of the flow. -/
theorem onEntry_congr {other : Frame} (h : flowTuple frame = flowTuple other) (flowMap : FlowMap)
    (body : FlowAttribute → EntryOutcome) :
    onEntry frame flowMap body = onEntry other flowMap body := by
  unfold onEntry
  rw [h]

/-- A program does the same on an accepted frame and on its stripped form. -/
theorem exec_stripped (hframe : flowTuple frame = some f) (program : XdpProgram) (ktime : Ktime)
    (nn : NnMaps) (flowMap : FlowMap) :
    exec program ktime nn frame.stripped flowMap = exec program ktime nn frame flowMap := by
  have hstripped := flowTuple_stripped hframe
  have hsame : flowTuple frame.stripped = flowTuple frame := hstripped.trans hframe.symm
  cases program with
  | xdpProg =>
    have hip : frame.stripped.ipHdr = frame.ipHdr := ipHdr_build _ _
    have htcp : frame.stripped.tcpHdr = frame.tcpHdr := tcpHdr_build _ _
    simp only [exec]
    rw [xdpProg_of_flowTuple_eq_some hstripped, xdpProg_of_flowTuple_eq_some hframe, hip, htcp]
  | xdpPreprocessing => exact onEntry_congr hsame flowMap _
  | xdpInputLinear => exact onEntry_congr hsame flowMap _
  | xdpInputRelu => exact onEntry_congr hsame flowMap _
  | xdpHiddenLinear => exact onEntry_congr hsame flowMap _
  | xdpHiddenRelu => exact onEntry_congr hsame flowMap _
  | xdpOutputLinear => exact onEntry_congr hsame flowMap _

end

namespace Machine

/-- The frame of the turn's packet is accepted. -/
def accepted (frames : ℕ → Frame) (turn : Turn) : Bool := (flowTuple (frames turn.packet)).isSome

/-- Two machines with the same map whose accepted packets stand at the same programs. -/
structure AgreeOnAccepted (frames : ℕ → Frame) (left right : Machine) : Prop where
  flowMap : left.flowMap = right.flowMap
  next : ∀ packet, (flowTuple (frames packet)).isSome → left.next packet = right.next packet

section

variable {frames : ℕ → Frame} {left right : Machine} {turn : Turn}

/-- A turn of a frame that is not accepted changes nothing that matters. -/
theorem AgreeOnAccepted.step_left (h : AgreeOnAccepted frames left right)
    (hturn : accepted frames turn = false) :
    AgreeOnAccepted frames (left.step loadedProgs frames turn) right := by
  have hframe : flowTuple (frames turn.packet) = none := by simpa [accepted] using hturn
  constructor
  · cases hnext : left.next turn.packet with
    | none => rw [step_of_next_eq_none loadedProgs hnext, h.flowMap]
    | some program =>
      rw [step_of_next_eq_some loadedProgs hnext, exec_of_flowTuple_eq_none hframe, ← h.flowMap]
      rfl
  · intro packet hpacket
    have hne : packet ≠ turn.packet := by
      rintro rfl
      rw [hframe] at hpacket
      cases hpacket
    rw [next_step_of_ne loadedProgs hne, h.next packet hpacket]

theorem turnLines_of_not_accepted (hturn : accepted frames turn = false) :
    turnLines frames left turn = [] := by
  have hframe : flowTuple (frames turn.packet) = none := by simpa [accepted] using hturn
  cases hnext : left.next turn.packet with
  | none => exact turnLines_of_next_eq_none hnext
  | some program =>
    rw [turnLines_of_next_eq_some hnext, exec_of_flowTuple_eq_none hframe]
    rfl

/-- A turn of an accepted frame does the same on the stripped form, and prints the same. -/
theorem AgreeOnAccepted.step_both (h : AgreeOnAccepted frames left right)
    (hturn : accepted frames turn = true) :
    AgreeOnAccepted frames (left.step loadedProgs frames turn)
        (right.step loadedProgs (fun packet ↦ (frames packet).stripped) turn) ∧
      turnLines frames left turn =
        turnLines (fun packet ↦ (frames packet).stripped) right turn := by
  obtain ⟨f, hframe⟩ := Option.isSome_iff_exists.mp hturn
  have hsame := h.next turn.packet hturn
  cases hnext : left.next turn.packet with
  | none =>
    have hother : right.next turn.packet = none := hsame.symm.trans hnext
    rw [step_of_next_eq_none loadedProgs hnext, step_of_next_eq_none loadedProgs hother,
      turnLines_of_next_eq_none hnext, turnLines_of_next_eq_none hother]
    exact ⟨h, rfl⟩
  | some program =>
    have hother : right.next turn.packet = some program := hsame.symm.trans hnext
    have hexec := exec_stripped hframe program turn.ktime turn.nn right.flowMap
    rw [step_of_next_eq_some loadedProgs hnext, step_of_next_eq_some loadedProgs hother,
      turnLines_of_next_eq_some hnext, turnLines_of_next_eq_some hother, hexec, h.flowMap]
    refine ⟨⟨rfl, ?_⟩, rfl⟩
    intro packet hpacket
    rcases eq_or_ne packet turn.packet with rfl | hne
    · simp only [Function.update_self]
    · simp only [Function.update_of_ne hne]
      exact h.next packet hpacket

variable (frames) in
/-- The stripped frames simulate the frames. -/
theorem simulation_stripped :
    Interleaving.Simulation (step loadedProgs frames) (turnLines frames)
      (step loadedProgs fun packet ↦ (frames packet).stripped)
      (turnLines fun packet ↦ (frames packet).stripped) (fun _ ↦ True) (AgreeOnAccepted frames)
      (fun _ turn ↦ if accepted frames turn then [turn] else []) where
  states := by
    intro left right turn _ hagree
    cases hturn : accepted frames turn with
    | true => exact (hagree.step_both hturn).1
    | false => exact hagree.step_left hturn
  logs := by
    intro left right turn _ hagree
    cases hturn : accepted frames turn with
    | true =>
      rw [if_pos rfl, Interleaving.trace_cons, Interleaving.trace_nil, List.append_nil]
      exact (hagree.step_both hturn).2
    | false => exact turnLines_of_not_accepted hturn

end

/-- From any state, every interleaving leaves the same map and prints the same log as the one in
which the turns of all frames that are not accepted are left out, and each accepted frame is cut
down to the 54 bytes of its headers, with the IP version 4 and zeros in place of everything else but
the eleven fields. -/
theorem only_fields_matter (frames : ℕ → Frame) (machine : Machine) (turns : List Turn) :
    let stripped : ℕ → Frame := fun packet ↦ (frames packet).stripped
    let few := turns.filter (accepted frames)
    (Interleaving.run (step loadedProgs frames) machine turns).flowMap =
        (Interleaving.run (step loadedProgs stripped) machine few).flowMap ∧
      Interleaving.trace (step loadedProgs frames) (turnLines frames) machine turns =
        Interleaving.trace (step loadedProgs stripped) (turnLines stripped) machine few := by
  intro stripped few
  have hagree : AgreeOnAccepted frames machine machine := ⟨rfl, fun _ _ ↦ rfl⟩
  have hfew : Interleaving.trace (step loadedProgs frames)
      (fun _ turn ↦ if accepted frames turn then [turn] else []) machine turns = few :=
    Interleaving.trace_chosen _ _ _ _
  have hturns : ∀ turn ∈ turns, (fun _ : Turn ↦ True) turn := fun _ _ ↦ trivial
  have hstates := (simulation_stripped frames).related_run hagree hturns
  have hlogs := (simulation_stripped frames).trace_eq hagree hturns
  rw [hfew] at hstates hlogs
  exact ⟨hstates.flowMap, hlogs⟩

end Machine

end NNeBPF

import NNeBPF.Xdp.Packet

/-!
# What the parser accepts

`flow_tuple` looks at the type, the protocol and the length of a frame, and reads the TCP header
behind an IP header of 20 bytes.  Every unfragmented TCP packet over IPv4 passes; whether the packet
is one, the version and the fragment offset included, is not asked.  If the IP header has no options
the fields that are read are those of the real TCP header.
-/

namespace NNeBPF

namespace Frame

/-- The version field of the IP header. -/
def version (frame : Frame) : BitVec 4 := (frame.load8 sizeofEthHdr).extractLsb' 4 4

/-- The low 13 bits of the word that holds the flags and the fragment offset. -/
def fragmentOffset (frame : Frame) : BitVec 13 :=
  (bpfNtohs (frame.load16 (sizeofEthHdr + 6))).extractLsb' 0 13

/-- The place behind the IP header by the length that the header gives. -/
def transportOffset (frame : Frame) : ℕ := sizeofEthHdr + 4 * frame.ipHdr.ihl.toNat

/-- The TCP header at any place of the frame. -/
def tcpHdrAt (frame : Frame) (offset : ℕ) : TcpHdr where
  source := frame.load16 offset
  dest := frame.load16 (offset + 2)
  doff := (frame.load8 (offset + 12)).extractLsb' 4 4
  fin := (frame.load8 (offset + 13)).getLsbD 0
  rst := (frame.load8 (offset + 13)).getLsbD 2

/-- The TCP header behind the IP header. -/
def realTcpHdr (frame : Frame) : TcpHdr := frame.tcpHdrAt frame.transportOffset

/-- The type, protocol and length checks of `flow_tuple`. -/
structure PassesChecks (frame : Frame) : Prop where
  etherType : frame.ethHdr.hProto = bpfNtohs ethPIp
  protocol : frame.ipHdr.protocol = ipprotoTcp
  length : sizeofEthHdr + sizeofIpHdr + sizeofTcpHdr ≤ frame.length

/-- An untagged Ethernet frame with an unfragmented TCP packet over IPv4 whose IP and TCP headers
lie inside the frame. -/
structure TcpOverIpv4 (frame : Frame) : Prop where
  etherType : frame.ethHdr.hProto = bpfNtohs ethPIp
  version : frame.version = 4
  ihl : 5 ≤ frame.ipHdr.ihl.toNat
  protocol : frame.ipHdr.protocol = ipprotoTcp
  fragmentOffset : frame.fragmentOffset = 0
  length : frame.transportOffset + sizeofTcpHdr ≤ frame.length

variable {frame : Frame}

/-- A frame that is too short for a TCP header behind a minimal IP header is too short for one
behind a longer IP header. -/
theorem TcpOverIpv4.passesChecks (h : TcpOverIpv4 frame) : PassesChecks frame where
  etherType := h.etherType
  protocol := h.protocol
  length := by
    have hihl := h.ihl
    calc
      sizeofEthHdr + sizeofIpHdr + sizeofTcpHdr ≤ frame.transportOffset + sizeofTcpHdr := by
        unfold transportOffset sizeofIpHdr
        omega
      _ ≤ frame.length := h.length

theorem transportOffset_of_ihl (h : frame.ipHdr.ihl = 5) :
    frame.transportOffset = sizeofEthHdr + sizeofIpHdr := by
  unfold transportOffset
  rw [h]
  rfl

/-- Without IP options the header that the programs read is the real one. -/
theorem tcpHdr_eq_realTcpHdr (h : frame.ipHdr.ihl = 5) : frame.tcpHdr = frame.realTcpHdr := by
  unfold realTcpHdr
  rw [transportOffset_of_ihl h]
  rfl

end Frame

theorem isSome_flowTuple_iff (frame : Frame) :
    (flowTuple frame).isSome ↔ frame.PassesChecks := by
  constructor
  · intro hsome
    obtain ⟨f, hframe⟩ := Option.isSome_iff_exists.mp hsome
    have hlength := length_of_flowTuple hframe
    unfold flowTuple at hframe
    split_ifs at hframe with _ htype _ hprotocol
    exact ⟨not_not.mp htype, not_not.mp hprotocol, hlength⟩
  · rintro ⟨htype, hprotocol, hlength⟩
    unfold sizeofTcpHdr at hlength
    have heth : ¬ frame.length < sizeofEthHdr := by omega
    have hip : ¬ frame.length < sizeofEthHdr + sizeofIpHdr := by omega
    have htcp : ¬ frame.length < sizeofEthHdr + sizeofIpHdr + sizeofTcpHdr := not_lt.mpr hlength
    simp [flowTuple, htype, hprotocol, heth, hip, htcp]

/-- Every unfragmented TCP packet over IPv4 is accepted, and with a minimal IP header a frame is
accepted exactly if it passes the checks.  The addresses are those of the IP header, and without IP
options the ports in the key and the fields that the programs use are those of the TCP header behind
the IP header. -/
theorem flowTuple_correct (frame : Frame) :
    (frame.TcpOverIpv4 → (flowTuple frame).isSome) ∧
      (frame.ipHdr.ihl = 5 → ((flowTuple frame).isSome ↔ frame.PassesChecks)) ∧
      ∀ f, flowTuple frame = some f →
        f.saddr = frame.load32 26 ∧ f.daddr = frame.load32 30 ∧
          (frame.ipHdr.ihl = 5 →
            f.sport = frame.realTcpHdr.source.setWidth 32 ∧
              f.dport = frame.realTcpHdr.dest.setWidth 32 ∧ frame.tcpHdr = frame.realTcpHdr) := by
  refine ⟨?_, ?_, ?_⟩
  · intro htcp
    exact (isSome_flowTuple_iff frame).mpr htcp.passesChecks
  · intro _
    exact isSome_flowTuple_iff frame
  · intro f hframe
    have hfields := eq_of_flowTuple hframe
    subst hfields
    refine ⟨rfl, rfl, ?_⟩
    intro hihl
    have hreal := Frame.tcpHdr_eq_realTcpHdr hihl
    exact ⟨by rw [hreal], by rw [hreal], hreal⟩

/-- The second fragment of a packet: its first payload bytes stand where the TCP header would. -/
def secondFragment : Frame := (hostFrame 7 40 true).set 21 1

/-- A FIN of the monitored host, with the real TCP header at byte 34. -/
theorem flowTuple_correct_hostFrame :
    (flowTuple (hostFrame 7 40 true)).isSome ∧
      (hostFrame 7 40 true).tcpHdr = (hostFrame 7 40 true).realTcpHdr := by
  have hihl : (hostFrame 7 40 true).ipHdr.ihl = 5 := by
    unfold hostFrame
    rw [ipHdr_build]
  have hcorrect := flowTuple_correct (hostFrame 7 40 true)
  have hframe := flowTuple_hostFrame 7 40 true
  exact ⟨by rw [hframe]; rfl, ((hcorrect.2.2 _ hframe).2.2 hihl).2.2⟩

/-- A fragment that holds no TCP header is accepted. -/
theorem isSome_flowTuple_secondFragment :
    (flowTuple secondFragment).isSome ∧ ¬ secondFragment.TcpOverIpv4 := by
  have haccepted : (flowTuple secondFragment).isSome := by decide +kernel
  have hoffset : secondFragment.fragmentOffset ≠ 0 := by decide +kernel
  exact ⟨haccepted, fun htcp ↦ hoffset htcp.fragmentOffset⟩

end NNeBPF

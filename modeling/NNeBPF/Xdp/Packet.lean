import NNeBPF.Mlp.Layers

/-!
# Frames and flow keys

The bytes between `data` and `data_end`, the header fields that the programs read from them, and
`flow_tuple`, which every program runs first.  The target is little-endian, so a 16-bit or 32-bit
load takes its bytes in reverse and the network fields stay byte-swapped until `bpf_ntohs` or
`bpf_ntohl` is applied.
-/

namespace NNeBPF

/-- The bytes between `data` and `data_end`. -/
abbrev Frame := List (BitVec 8)

namespace Frame

def load8 (frame : Frame) (offset : ℕ) : BitVec 8 := frame.getD offset 0

def load16 (frame : Frame) (offset : ℕ) : BitVec 16 :=
  load8 frame (offset + 1) ++ load8 frame offset

def load32 (frame : Frame) (offset : ℕ) : BitVec 32 :=
  load16 frame (offset + 2) ++ load16 frame offset

end Frame

/-! ## Headers -/

def sizeofEthHdr : ℕ := 14
def sizeofIpHdr : ℕ := 20
def sizeofTcpHdr : ℕ := 20

/-- The field of `struct ethhdr` that is read. -/
structure EthHdr where
  hProto : BitVec 16

/-- The fields of `struct iphdr` that are read. -/
structure IpHdr where
  ihl : BitVec 4
  totLen : BitVec 16
  protocol : BitVec 8
  saddr : BitVec 32
  daddr : BitVec 32

/-- The fields of `struct tcphdr` that are read. -/
structure TcpHdr where
  source : BitVec 16
  dest : BitVec 16
  doff : BitVec 4
  fin : Bool
  rst : Bool

namespace Frame

def ethHdr (frame : Frame) : EthHdr where
  hProto := frame.load16 12

/-- The IP header directly behind the Ethernet header. -/
def ipHdr (frame : Frame) : IpHdr :=
  let offset := sizeofEthHdr
  { ihl := (frame.load8 offset).extractLsb' 0 4
    totLen := frame.load16 (offset + 2)
    protocol := frame.load8 (offset + 9)
    saddr := frame.load32 (offset + 12)
    daddr := frame.load32 (offset + 16) }

/-- The TCP header at the fixed place behind a 20-byte IP header. -/
def tcpHdr (frame : Frame) : TcpHdr :=
  let offset := sizeofEthHdr + sizeofIpHdr
  { source := frame.load16 offset
    dest := frame.load16 (offset + 2)
    doff := (frame.load8 (offset + 12)).extractLsb' 4 4
    fin := (frame.load8 (offset + 13)).getLsbD 0
    rst := (frame.load8 (offset + 13)).getLsbD 2 }

end Frame

/-- `tcp->fin || tcp->rst`. -/
def TcpHdr.closes (tcp : TcpHdr) : Bool := tcp.fin || tcp.rst

def bpfNtohs (x : BitVec 16) : BitVec 16 := x.extractLsb' 0 8 ++ x.extractLsb' 8 8

def bpfNtohl (x : BitVec 32) : BitVec 32 :=
  bpfNtohs (x.extractLsb' 0 16) ++ bpfNtohs (x.extractLsb' 16 16)

/-! ## Flows -/

/-- `struct flow`, the key of `flow_map`. -/
structure Flow where
  saddr : S32
  sport : S32
  daddr : S32
  dport : S32
deriving DecidableEq

def ethPIp : BitVec 16 := 0x0800
def ipprotoTcp : BitVec 8 := 6

/-- `flow_tuple`: the key of the frame's flow, or `none` where the source returns `-1`.  On a 16-bit
word `bpf_htons` is the same swap as `bpf_ntohs`. -/
def flowTuple (frame : Frame) : Option Flow :=
  if frame.length < sizeofEthHdr then none
  else if frame.ethHdr.hProto ≠ bpfNtohs ethPIp then none
  else if frame.length < sizeofEthHdr + sizeofIpHdr then none
  else if frame.ipHdr.protocol ≠ ipprotoTcp then none
  else if frame.length < sizeofEthHdr + sizeofIpHdr + sizeofTcpHdr then none
  else
    some
      { saddr := frame.ipHdr.saddr
        daddr := frame.ipHdr.daddr
        sport := frame.tcpHdr.source.setWidth 32
        dport := frame.tcpHdr.dest.setWidth 32 }

/-- The source address `33.33.33.73` of the monitored host. -/
def Flow.monitored (f : Flow) : Bool := bpfNtohl f.saddr == 555819337

/-- `u64 packet_length = bpf_ntohs(ip->tot_len) - ip->ihl * 4`: the difference is an `int`. -/
def IpHdr.packetLength (ip : IpHdr) : U64 :=
  ((bpfNtohs ip.totLen).setWidth 32 - ip.ihl.setWidth 32 * 4).signExtend 64

theorem length_of_flowTuple {frame : Frame} {f : Flow} (h : flowTuple frame = some f) :
    sizeofEthHdr + sizeofIpHdr + sizeofTcpHdr ≤ frame.length := by
  unfold flowTuple at h
  split_ifs at h with _ _ _ _ hlength
  exact not_lt.mp hlength

/-- The key of an accepted frame is read off its headers. -/
theorem eq_of_flowTuple {frame : Frame} {f : Flow} (h : flowTuple frame = some f) :
    f = { saddr := frame.ipHdr.saddr
          daddr := frame.ipHdr.daddr
          sport := frame.tcpHdr.source.setWidth 32
          dport := frame.tcpHdr.dest.setWidth 32 } := by
  unfold flowTuple at h
  split_ifs at h
  exact (Option.some.inj h).symm

/-- A 16-bit word widened to an `int` keeps its value. -/
theorem toInt_setWidth_of_lt {width : ℕ} (x : BitVec width) (h : width < 32) :
    (x.setWidth 32).toInt = (x.toNat : ℤ) := by
  have hlt : x.toNat < 2 ^ 31 :=
    lt_of_lt_of_le x.isLt (Nat.pow_le_pow_right (by decide) (by omega))
  rw [BitVec.toInt_eq_toNat_of_lt (by simp; omega), BitVec.toNat_setWidth]
  omega

/-- The length of an IP payload as the signed number that the `int` subtraction has. -/
theorem IpHdr.toInt_packetLength (ip : IpHdr) :
    ip.packetLength.toInt = ((bpfNtohs ip.totLen).toNat : ℤ) - 4 * (ip.ihl.toNat : ℤ) := by
  have htot := (bpfNtohs ip.totLen).isLt
  have hihl := ip.ihl.isLt
  have hfour : (4 : S32).toInt = 4 := by decide
  unfold IpHdr.packetLength
  rw [BitVec.toInt_signExtend_of_le (by decide), BitVec.toInt_sub, BitVec.toInt_mul,
    toInt_setWidth_of_lt _ (by decide), toInt_setWidth_of_lt _ (by decide), hfour]
  rw [Int.bmod_eq_of_le (n := (ip.ihl.toNat : ℤ) * 4) (by omega) (by omega),
    Int.bmod_eq_of_le (by omega) (by omega)]
  omega

/-! ## Building frames -/

@[irreducible]
def lowByte (x : BitVec 16) : BitVec 8 := x.extractLsb' 0 8

@[irreducible]
def highByte (x : BitVec 16) : BitVec 8 := x.extractLsb' 8 8

def lowHalf (x : BitVec 32) : BitVec 16 := x.extractLsb' 0 16
def highHalf (x : BitVec 32) : BitVec 16 := x.extractLsb' 16 16

/-- The shortest untagged IPv4 frame with the given header fields and no payload; all other bytes of
the headers are zero. -/
def Frame.build (ip : IpHdr) (tcp : TcpHdr) : Frame :=
  [0, 0, 0, 0, 0, 0, 0, 0, 0, 0, 0, 0, 0x08, 0x00,
    4#4 ++ ip.ihl, 0, lowByte ip.totLen, highByte ip.totLen, 0, 0, 0, 0, 0, ip.protocol, 0, 0,
    lowByte (lowHalf ip.saddr), highByte (lowHalf ip.saddr),
    lowByte (highHalf ip.saddr), highByte (highHalf ip.saddr),
    lowByte (lowHalf ip.daddr), highByte (lowHalf ip.daddr),
    lowByte (highHalf ip.daddr), highByte (highHalf ip.daddr),
    lowByte tcp.source, highByte tcp.source, lowByte tcp.dest, highByte tcp.dest,
    0, 0, 0, 0, 0, 0, 0, 0, tcp.doff ++ 0#4,
    0#5 ++ BitVec.ofBool tcp.rst ++ 0#1 ++ BitVec.ofBool tcp.fin, 0, 0, 0, 0, 0, 0]

theorem append_bytes (x : BitVec 16) : highByte x ++ lowByte x = x := by
  have h : x.extractLsb' 8 8 ++ x.extractLsb' 0 8 = x.extractLsb' 0 (8 + 8) :=
    BitVec.extractLsb'_append_extractLsb'_eq_extractLsb' rfl
  unfold highByte lowByte
  rw [h, BitVec.extractLsb'_eq_self]

theorem append_halves (x : BitVec 32) : highHalf x ++ lowHalf x = x := by
  have h : x.extractLsb' 16 16 ++ x.extractLsb' 0 16 = x.extractLsb' 0 (16 + 16) :=
    BitVec.extractLsb'_append_extractLsb'_eq_extractLsb' rfl
  unfold highHalf lowHalf
  rw [h, BitVec.extractLsb'_eq_self]

theorem length_build (ip : IpHdr) (tcp : TcpHdr) : (Frame.build ip tcp).length = 54 := rfl

section

variable (ip : IpHdr) (tcp : TcpHdr)

theorem load16_of_load8 {frame : Frame} {offset : ℕ} {x : BitVec 16}
    (hlow : frame.load8 offset = lowByte x) (hhigh : frame.load8 (offset + 1) = highByte x) :
    frame.load16 offset = x := by
  unfold Frame.load16
  rw [hlow, hhigh, append_bytes]

theorem ethHdr_build : (Frame.build ip tcp).ethHdr.hProto = bpfNtohs ethPIp := by
  have hword : (Frame.build ip tcp).ethHdr.hProto = 0x00#8 ++ 0x08#8 := rfl
  rw [hword]
  decide

/-- A 32-bit load whose halves lie in memory as `bytes16` puts them. -/
theorem load32_of_load16 {frame : Frame} {offset : ℕ} {x : BitVec 32}
    (hlow : frame.load16 offset = lowHalf x) (hhigh : frame.load16 (offset + 2) = highHalf x) :
    frame.load32 offset = x := by
  unfold Frame.load32
  rw [hlow, hhigh, append_halves]

/-- The IP header of a built frame is read back. -/
theorem ipHdr_build : (Frame.build ip tcp).ipHdr = ip := by
  have hihl : ((Frame.build ip tcp).load8 14).extractLsb' 0 4 = ip.ihl := by
    have hbyte : (Frame.build ip tcp).load8 14 = 4#4 ++ ip.ihl := rfl
    rw [hbyte]
    exact BitVec.extractLsb'_append_eq_right
  have htot : (Frame.build ip tcp).load16 16 = ip.totLen := load16_of_load8 rfl rfl
  have hprotocol : (Frame.build ip tcp).load8 23 = ip.protocol := rfl
  have hsaddr : (Frame.build ip tcp).load32 26 = ip.saddr :=
    load32_of_load16 (load16_of_load8 rfl rfl) (load16_of_load8 rfl rfl)
  have hdaddr : (Frame.build ip tcp).load32 30 = ip.daddr :=
    load32_of_load16 (load16_of_load8 rfl rfl) (load16_of_load8 rfl rfl)
  simp only [Frame.ipHdr, sizeofEthHdr, hihl, htot, hprotocol, hsaddr, hdaddr]

/-- The TCP header of a built frame is read back. -/
theorem tcpHdr_build : (Frame.build ip tcp).tcpHdr = tcp := by
  have hsource : (Frame.build ip tcp).load16 34 = tcp.source := load16_of_load8 rfl rfl
  have hdest : (Frame.build ip tcp).load16 36 = tcp.dest := load16_of_load8 rfl rfl
  have hdoff : ((Frame.build ip tcp).load8 46).extractLsb' 4 4 = tcp.doff := by
    have hbyte : (Frame.build ip tcp).load8 46 = tcp.doff ++ 0#4 := rfl
    rw [hbyte]
    exact BitVec.extractLsb'_append_eq_left
  have hbyte : (Frame.build ip tcp).load8 47 =
      0#5 ++ BitVec.ofBool tcp.rst ++ 0#1 ++ BitVec.ofBool tcp.fin := rfl
  have hflags (fin rst : Bool) :
      (0#5 ++ BitVec.ofBool rst ++ 0#1 ++ BitVec.ofBool fin).getLsbD 0 = fin ∧
        (0#5 ++ BitVec.ofBool rst ++ 0#1 ++ BitVec.ofBool fin).getLsbD 2 = rst := by
    cases fin <;> cases rst <;> decide
  simp only [Frame.tcpHdr, sizeofEthHdr, sizeofIpHdr, hsource, hdest, hdoff, hbyte,
    (hflags _ _).1, (hflags _ _).2]

end

/-- A built TCP frame is accepted under the key of its header fields. -/
theorem flowTuple_build (ip : IpHdr) (tcp : TcpHdr) (hprotocol : ip.protocol = ipprotoTcp) :
    flowTuple (Frame.build ip tcp) =
      some
        { saddr := ip.saddr
          daddr := ip.daddr
          sport := tcp.source.setWidth 32
          dport := tcp.dest.setWidth 32 } := by
  simp only [flowTuple, length_build, ethHdr_build, ipHdr_build, tcpHdr_build, hprotocol,
    sizeofEthHdr, sizeofIpHdr, sizeofTcpHdr]
  rfl

/-- A packet that the monitored host sends: only its source port, its total length and its FIN flag
vary, the IP header has its minimal length and the TCP header `doff = 5`. -/
def hostFrame (sport : BitVec 16) (totLen : BitVec 16) (fin : Bool) : Frame :=
  Frame.build
    { ihl := 5, totLen := bpfNtohs totLen, protocol := ipprotoTcp, saddr := 0x49212121, daddr := 0 }
    { source := sport, dest := 0x5000, doff := 5, fin := fin, rst := false }

/-- The flow of `hostFrame`. -/
def hostFlow (sport : BitVec 16) : Flow where
  saddr := 0x49212121
  sport := sport.setWidth 32
  daddr := 0
  dport := 0x5000

theorem flowTuple_hostFrame (sport totLen : BitVec 16) (fin : Bool) :
    flowTuple (hostFrame sport totLen fin) = some (hostFlow sport) :=
  flowTuple_build _ _ rfl

theorem monitored_hostFlow (sport : BitVec 16) : (hostFlow sport).monitored = true := by
  have hsaddr : (hostFlow sport).saddr = 0x49212121 := rfl
  unfold Flow.monitored
  rw [hsaddr]
  decide

theorem closes_hostFrame (sport totLen : BitVec 16) (fin : Bool) :
    (hostFrame sport totLen fin).tcpHdr.closes = fin := by
  unfold hostFrame
  rw [tcpHdr_build]
  exact Bool.or_false fin

end NNeBPF

import NNeBPF.Xdp.Sequential

/-!
# Packet lengths

The length features of an entry are the extremes of the lengths of its recorded packets as unsigned
64-bit words.  The length of a packet with `tot_len < 4 * ihl` is a negative `int`, and as a `u64`
it is larger than every other length: it becomes the maximum and stays it for the rest of the flow.
Without such a packet the two features are the true extremes.
-/

namespace NNeBPF

namespace Arrival

/-- The length of the IP payload by the header, as an integer. -/
def payloadLength (arrival : Arrival) : ℤ :=
  (bpfNtohs arrival.frame.ipHdr.totLen).toNat - 4 * arrival.frame.ipHdr.ihl.toNat

/-- The same length clipped to be non-negative. -/
def clippedLength (arrival : Arrival) : ℤ := max 0 arrival.payloadLength

theorem toInt_packetLength (arrival : Arrival) :
    arrival.packetLength.toInt = arrival.payloadLength :=
  IpHdr.toInt_packetLength arrival.frame.ipHdr

theorem payloadLength_le (arrival : Arrival) : arrival.payloadLength ≤ 65535 := by
  have htot := (bpfNtohs arrival.frame.ipHdr.totLen).isLt
  unfold payloadLength
  omega

/-- A non-negative length is the same number as an unsigned word. -/
theorem toNat_packetLength_of_nonneg {arrival : Arrival} (h : 0 ≤ arrival.payloadLength) :
    (arrival.packetLength.toNat : ℤ) = arrival.clippedLength := by
  have hint := toInt_packetLength arrival
  rw [BitVec.toInt_eq_toNat_cond] at hint
  unfold clippedLength
  split at hint <;> omega

/-- A negative length is an unsigned word of at least `2^63`. -/
theorem le_toNat_packetLength_of_neg {arrival : Arrival} (h : arrival.payloadLength < 0) :
    2 ^ 63 ≤ arrival.packetLength.toNat := by
  have hint := toInt_packetLength arrival
  rw [BitVec.toInt_eq_toNat_cond] at hint
  split at hint <;> omega

end Arrival

/-- The lengths of packets as unsigned words. -/
def unsignedLengths (packets : List Arrival) : Set ℕ :=
  {length | ∃ packet ∈ packets, packet.packetLength.toNat = length}

theorem unsignedLengths_concat (packets : List Arrival) (packet : Arrival) :
    unsignedLengths (packets ++ [packet]) =
      insert packet.packetLength.toNat (unsignedLengths packets) := by
  ext length
  simp only [unsignedLengths, Set.mem_ofPred_eq, Set.mem_insert_iff, List.mem_append,
    List.mem_singleton]
  constructor
  · rintro ⟨other, hother | rfl, rfl⟩
    · exact Or.inr ⟨other, hother, rfl⟩
    · exact Or.inl rfl
  · rintro (rfl | ⟨other, hother, rfl⟩)
    · exact ⟨packet, Or.inr rfl, rfl⟩
    · exact ⟨other, Or.inl hother, rfl⟩

theorem toNat_maxPacketLength_record (arrival : Arrival) (attr : FlowAttribute) :
    (arrival.record attr).maxPacketLength.toNat =
      max arrival.packetLength.toNat attr.maxPacketLength.toNat := by
  rw [Arrival.record, maxPacketLength_recordPacket, toNat_unsignedMax, max_comm]

theorem toNat_minPacketLength_record (arrival : Arrival) (attr : FlowAttribute) :
    (arrival.record attr).minPacketLength.toNat =
      min arrival.packetLength.toNat attr.minPacketLength.toNat := by
  rw [Arrival.record, minPacketLength_recordPacket, toNat_unsignedMin, min_comm]

/-- The features of an entry are the unsigned extremes; the minimum starts at `2^62 - 1`. -/
theorem unsigned_extremes {packets : List Arrival} {attr : FlowAttribute}
    (hattr : replay packets = some attr) :
    IsGreatest (unsignedLengths packets) attr.maxPacketLength.toNat ∧
      IsLeast (insert (2 ^ 62 - 1) (unsignedLengths packets)) attr.minPacketLength.toNat := by
  induction packets using List.reverseRecOn generalizing attr with
  | nil => cases hattr
  | append_singleton packets packet ih =>
    rw [replay_concat, Option.some.injEq] at hattr
    subst hattr
    rw [toNat_maxPacketLength_record, toNat_minPacketLength_record, unsignedLengths_concat]
    cases hbefore : replay packets with
    | none =>
      rw [replay_eq_none_iff] at hbefore
      subst hbefore
      have hempty : unsignedLengths [] = ∅ := by
        simp [unsignedLengths]
      have hmax : packet.newEntry.maxPacketLength.toNat = 0 := rfl
      have hmin : packet.newEntry.minPacketLength.toNat = 2 ^ 62 - 1 := rfl
      rw [hempty, insert_empty_eq, Option.getD_none, hmax, hmin, max_eq_left (Nat.zero_le _),
        Set.pair_comm]
      exact ⟨isGreatest_singleton, isLeast_singleton.insert _⟩
    | some old =>
      obtain ⟨hmax, hmin⟩ := ih hbefore
      rw [Option.getD_some, Set.insert_comm]
      exact ⟨hmax.insert _, hmin.insert _⟩

/-! ## The true extremes -/

/-- The length features of an entry are the extremes of the clipped lengths of its recorded packets,
and so they are ordered and fit in 16 bits. -/
structure TrueExtremes (packets : List Arrival) (attr : FlowAttribute) : Prop where
  isLeast : IsLeast {length | ∃ packet ∈ packets, packet.clippedLength = length}
    attr.minPacketLength.toInt
  isGreatest : IsGreatest {length | ∃ packet ∈ packets, packet.clippedLength = length}
    attr.maxPacketLength.toInt
  bounds : 0 ≤ attr.minPacketLength.toInt ∧
    attr.minPacketLength.toInt ≤ attr.maxPacketLength.toInt ∧ attr.maxPacketLength.toInt ≤ 65535

section

variable {packets : List Arrival} {attr : FlowAttribute}

/-- One packet with a negative length makes the maximum negative. -/
theorem maxPacketLength_neg (hattr : replay packets = some attr) {packet : Arrival}
    (hpacket : packet ∈ packets) (hneg : packet.payloadLength < 0) :
    attr.maxPacketLength.toInt < 0 := by
  have hlarge := Arrival.le_toNat_packetLength_of_neg hneg
  have hle : packet.packetLength.toNat ≤ attr.maxPacketLength.toNat :=
    (unsigned_extremes hattr).1.2 ⟨packet, hpacket, rfl⟩
  rw [BitVec.toInt_eq_toNat_cond]
  have hlt := attr.maxPacketLength.isLt
  split <;> omega

theorem trueExtremes_of_nonneg (hattr : replay packets = some attr)
    (hnonneg : ∀ packet ∈ packets, 0 ≤ packet.payloadLength) : TrueExtremes packets attr := by
  obtain ⟨⟨⟨longest, hlongest, hmax⟩, hupper⟩, hleast, hlower⟩ := unsigned_extremes hattr
  have hlength {packet : Arrival} (hpacket : packet ∈ packets) :
      (packet.packetLength.toNat : ℤ) = packet.clippedLength ∧
        packet.packetLength.toNat ≤ 65535 := by
    have hnat := Arrival.toNat_packetLength_of_nonneg (hnonneg packet hpacket)
    have hle := packet.payloadLength_le
    refine ⟨hnat, ?_⟩
    unfold Arrival.clippedLength at hnat
    omega
  have hmaxLe : attr.maxPacketLength.toNat ≤ 65535 := by
    rw [← hmax]
    exact (hlength hlongest).2
  have hminLe : attr.minPacketLength.toNat ≤ longest.packetLength.toNat :=
    hlower (Set.mem_insert_of_mem _ ⟨longest, hlongest, rfl⟩)
  -- The initial minimum is longer than any packet, so some packet attains the minimum.
  obtain ⟨shortest, hshortest, hmin⟩ :
      ∃ packet ∈ packets, packet.packetLength.toNat = attr.minPacketLength.toNat := by
    rcases hleast with hinitial | hmem
    · omega
    · exact hmem
  have hmaxInt : attr.maxPacketLength.toInt = attr.maxPacketLength.toNat :=
    BitVec.toInt_eq_toNat_of_lt (by omega)
  have hminInt : attr.minPacketLength.toInt = attr.minPacketLength.toNat :=
    BitVec.toInt_eq_toNat_of_lt (by omega)
  refine ⟨⟨⟨shortest, hshortest, ?_⟩, ?_⟩, ⟨⟨longest, hlongest, ?_⟩, ?_⟩, ?_⟩
  · rw [hminInt, ← hmin]
    exact (hlength hshortest).1.symm
  · rintro _ ⟨packet, hpacket, rfl⟩
    have hle : attr.minPacketLength.toNat ≤ packet.packetLength.toNat :=
      hlower (Set.mem_insert_of_mem _ ⟨packet, hpacket, rfl⟩)
    rw [hminInt, ← (hlength hpacket).1]
    exact_mod_cast hle
  · rw [hmaxInt, ← hmax]
    exact (hlength hlongest).1.symm
  · rintro _ ⟨packet, hpacket, rfl⟩
    have hle : packet.packetLength.toNat ≤ attr.maxPacketLength.toNat :=
      hupper ⟨packet, hpacket, rfl⟩
    rw [hmaxInt, ← (hlength hpacket).1]
    exact_mod_cast hle
  · omega

end

/-- The length features of an entry are the true extremes exactly if no recorded packet of its flow
has a total length below its header length. -/
theorem trueExtremes_iff (arrivals : List Arrival) {f : Flow} {attr : FlowAttribute}
    (hattr : (mapAfter arrivals).lookup f = some attr) :
    TrueExtremes (recorded f arrivals) attr ↔
      ∀ packet ∈ recorded f arrivals, 0 ≤ packet.payloadLength := by
  have hreplay : replay (recorded f arrivals) = some attr.core := by
    rw [← map_core_lookup_mapAfter, hattr]
    rfl
  constructor
  · intro htrue packet hpacket
    by_contra hneg
    have hcore : attr.core.maxPacketLength.toInt < 0 :=
      maxPacketLength_neg hreplay hpacket (not_le.mp hneg)
    have hmax : attr.maxPacketLength.toInt < 0 := hcore
    obtain ⟨hzero, hle, -⟩ := htrue.bounds
    omega
  · intro hnonneg
    obtain ⟨hleast, hgreatest, hbounds⟩ := trueExtremes_of_nonneg hreplay hnonneg
    exact ⟨hleast, hgreatest, hbounds⟩

/-- A SYN and a FIN of one flow. -/
theorem trueExtremes_iff_hostFrame :
    let nn : NnMaps := ⟨#v[Net.zero, Net.zero], #v[1]⟩
    let arrivals : List Arrival := [⟨hostFrame 7 60 false, ⟨1, 1, 1, 1, 1⟩, nn⟩,
      ⟨hostFrame 7 40 true, ⟨9, 9, 9, 9, 9⟩, nn⟩]
    ∃ attr, (mapAfter arrivals).lookup (hostFlow 7) = some attr ∧
      (TrueExtremes (recorded (hostFlow 7) arrivals) attr ↔
        ∀ packet ∈ recorded (hostFlow 7) arrivals, 0 ≤ packet.payloadLength) := by
  intro nn arrivals
  have hsome : ((mapAfter arrivals).lookup (hostFlow 7)).isSome := by decide +kernel
  obtain ⟨attr, hattr⟩ := Option.isSome_iff_exists.mp hsome
  exact ⟨attr, hattr, trueExtremes_iff arrivals hattr⟩

/-- A first packet with total length 0 has length -20: it becomes the maximum, and the minimum keeps
its initial value. -/
theorem not_trueExtremes_of_short_packet :
    let arrivals : List Arrival :=
      [⟨hostFrame 7 0 false, ⟨1, 1, 1, 1, 1⟩, ⟨#v[Net.zero, Net.zero], #v[1]⟩⟩]
    ∃ attr, (mapAfter arrivals).lookup (hostFlow 7) = some attr ∧
      attr.minPacketLength.toInt = 4611686018427387903 ∧ attr.maxPacketLength.toInt = -20 ∧
      ¬ TrueExtremes (recorded (hostFlow 7) arrivals) attr := by
  intro arrivals
  have hfields : ((mapAfter arrivals).lookup (hostFlow 7)).any
      (fun attr ↦ attr.minPacketLength.toInt == 4611686018427387903 &&
        attr.maxPacketLength.toInt == -20) = true := by decide +kernel
  obtain ⟨attr, hattr, hvalues⟩ := (Option.any_eq_true _ _).mp hfields
  simp only [Bool.and_eq_true, beq_iff_eq] at hvalues
  refine ⟨attr, hattr, hvalues.1, hvalues.2, ?_⟩
  intro htrue
  obtain ⟨hzero, hle, -⟩ := htrue.bounds
  omega

end NNeBPF

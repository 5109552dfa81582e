import NNeBPF.Mlp.Scaler
import NNeBPF.Xdp.Durations
import NNeBPF.Xdp.PacketLengths

/-!
# The features of a flow

What sequential runs of well-formed packets leave in the six features.  The lengths and the port
stay below `2^16`; the duration, the header length and the number of packets grow with the flow and
are bounded by nothing that the code checks.  The shipped scaler is exact while they stay below
their means plus `2^48` and plus `2^15` times their scales, and it is not beyond.
-/

namespace NNeBPF

open Mlp

/-- The header bytes of packets. -/
def headerTotal (packets : List Arrival) : ℕ :=
  (packets.map fun packet ↦ 4 * packet.frame.tcpHdr.doff.toNat).sum

/-- The ranges of the features after `count` well-formed packets, without the duration. -/
structure FeatureRanges (count : ℕ) (attr : FlowAttribute) : Prop where
  maxPacketLength : 0 ≤ attr.maxPacketLength.toInt ∧ attr.maxPacketLength.toInt ≤ 65535
  minPacketLength : 0 ≤ attr.minPacketLength.toInt ∧ attr.minPacketLength.toInt ≤ 65535
  dstPort : 0 ≤ attr.dstPort.toInt ∧ attr.dstPort.toInt ≤ 65535
  headerLength : 0 ≤ attr.headerLength.toInt ∧ attr.headerLength.toInt ≤ 60 * count
  numPacket : attr.numPacket.toInt = count

section

variable {packets : List Arrival} {attr : FlowAttribute}

theorem headerTotal_concat (packets : List Arrival) (packet : Arrival) :
    headerTotal (packets ++ [packet]) =
      headerTotal packets + 4 * packet.frame.tcpHdr.doff.toNat := by
  simp [headerTotal]

theorem headerTotal_le (packets : List Arrival) : headerTotal packets ≤ 60 * packets.length := by
  induction packets using List.reverseRecOn with
  | nil => exact le_rfl
  | append_singleton packets packet ih =>
    have hdoff := packet.frame.tcpHdr.doff.isLt
    rw [headerTotal_concat, List.length_append, List.length_singleton]
    omega

/-- Every recorded packet adds its header. -/
theorem headerLength_replay (hattr : replay packets = some attr) :
    attr.headerLength = BitVec.ofNat 64 (headerTotal packets) := by
  induction packets using List.reverseRecOn generalizing attr with
  | nil => cases hattr
  | append_singleton packets packet ih =>
    rw [replay_concat, Option.some.injEq] at hattr
    subst hattr
    have hrecord (old : FlowAttribute) :
        (packet.record old).headerLength =
          old.headerLength + packet.frame.tcpHdr.headerBytes := rfl
    rw [hrecord, headerTotal_concat, BitVec.ofNat_add, headerBytes_eq_ofNat]
    cases hold : replay packets with
    | none =>
      rw [replay_eq_none_iff] at hold
      subst hold
      rfl
    | some old => rw [Option.getD_some, ih hold]

/-- The port comes from a 16-bit field. -/
theorem toNat_dstPort_replay (hattr : replay packets = some attr) :
    attr.dstPort.toNat < 2 ^ 16 := by
  induction packets using List.reverseRecOn generalizing attr with
  | nil => cases hattr
  | append_singleton packets packet ih =>
    rw [replay_concat, Option.some.injEq] at hattr
    subst hattr
    have hrecord (old : FlowAttribute) : (packet.record old).dstPort = old.dstPort := rfl
    rw [hrecord]
    cases hold : replay packets with
    | none =>
      have hport : packet.newEntry.dstPort =
          (bpfNtohs packet.frame.tcpHdr.dest).setWidth 64 := rfl
      rw [Option.getD_none, hport, BitVec.toNat_setWidth]
      have hlt := (bpfNtohs packet.frame.tcpHdr.dest).isLt
      omega
    | some old => exact ih hold

theorem featureRanges_replay (hattr : replay packets = some attr)
    (hfew : packets.length < 2 ^ 57) (hlengths : ∀ packet ∈ packets, 0 ≤ packet.payloadLength) :
    FeatureRanges packets.length attr := by
  obtain ⟨hminNonneg, hle, hmaxLe⟩ := (trueExtremes_of_nonneg hattr hlengths).bounds
  have hheader := headerTotal_le packets
  have hport := toNat_dstPort_replay hattr
  have hportInt : attr.dstPort.toInt = attr.dstPort.toNat :=
    BitVec.toInt_eq_toNat_of_lt (by omega)
  refine ⟨⟨by omega, hmaxLe⟩, ⟨hminNonneg, by omega⟩, by omega, ?_, ?_⟩
  · rw [headerLength_replay hattr, toInt_ofNat_of_lt (by omega)]
    omega
  · rw [numPacket_replay hattr, toInt_ofNat_of_lt (by omega)]

end

/-! ## The scaler on reachable features -/

/-- Some sequential run of fewer than `2^57` well-formed packets, with a clock that never goes back,
leaves the features in an entry. -/
def LeftByRun (x : Vector S64 6) : Prop :=
  ∃ (arrivals : List Arrival) (f : Flow) (attr : FlowAttribute),
    arrivals.length < 2 ^ 57 ∧ (∀ arrival ∈ arrivals, 0 ≤ arrival.payloadLength) ∧
      SteadyClock arrivals ∧ (mapAfter arrivals).lookup f = some attr ∧ attr.features = x

/-- The bound below which the scaler is exact on a feature that is not negative. -/
def scalerLimit (i : Fin 6) : ℤ :=
  (shippedNet.mean.get i).toInt + min (2 ^ 48) (2 ^ 15 * (shippedNet.scale.get i).toInt)

/-- The ranges of the features that a run leaves. -/
theorem ranges_of_leftByRun {x : Vector S64 6} (hx : LeftByRun x) :
    (∀ i, 0 ≤ (x.get i).toInt) ∧
      ∀ i, i = 0 ∨ i = 2 ∨ i = 3 → (x.get i).toInt ≤ 65535 := by
  obtain ⟨arrivals, f, attr, hfew, hlengths, hclock, hattr, rfl⟩ := hx
  have hreplay := replay_filter_of_lookup hattr
  have hshort := List.length_filter_le (Arrival.belongsTo f) arrivals
  have hranges := featureRanges_replay hreplay (by omega)
    fun packet hpacket ↦ hlengths packet (List.mem_of_mem_filter hpacket)
  have hduration : 0 ≤ attr.core.maxDuration.toInt := by
    have hlt := toNat_maxDuration_lt (hclock.sublist List.filter_sublist) hreplay
    rw [BitVec.toInt_eq_toNat_of_lt (by omega)]
    exact Int.natCast_nonneg _
  have hcount : 0 ≤ attr.core.numPacket.toInt := by
    rw [hranges.numPacket]
    exact Int.natCast_nonneg _
  constructor
  · intro i
    fin_cases i
    · exact hranges.maxPacketLength.1
    · exact hduration
    · exact hranges.minPacketLength.1
    · exact hranges.dstPort.1
    · exact hranges.headerLength.1
    · exact hcount
  · rintro i (rfl | rfl | rfl)
    · exact hranges.maxPacketLength.2
    · exact hranges.minPacketLength.2
    · exact hranges.dstPort.2

/-- The shipped means are small, and so is everything between zero and them. -/
theorem shippedNet_mean_small (i : Fin 6) :
    0 ≤ (shippedNet.mean.get i).toInt ∧ (shippedNet.mean.get i).toInt < 2 ^ 48 ∧
      (shippedNet.mean.get i).toInt < 2 ^ 15 * (shippedNet.scale.get i).toInt := by
  revert i
  decide

theorem le_scalerLimit (i : Fin 6) : 65535 < scalerLimit i := by
  revert i
  decide

/-- On a feature that is not negative the shipped scaler is exact exactly below the limit. -/
theorem lossless_shippedNet_iff {x : S64} (hx : 0 ≤ x.toInt) (i : Fin 6) :
    Lossless x (shippedNet.mean.get i) (shippedNet.scale.get i) ↔ x.toInt < scalerLimit i := by
  obtain ⟨hmean, hword, hrange⟩ := shippedNet_mean_small i
  have hscale := shippedNet_scale_pos i
  rw [lossless_iff (by omega), abs_lt, abs_lt, scalerLimit]
  omega

/-- The shipped scaler is exact on a reachable feature exactly if the feature is below its limit.
The lengths and the port always are.  Between features below the limit it is monotone. -/
theorem scaler_exact_iff {x : Vector S64 6} (hx : LeftByRun x) :
    (∀ buffer : Vector S32 32,
        cells (standardScaler x buffer shippedNet.mean shippedNet.scale features_fit) 6
          features_fit = scaled shippedNet x) ∧
      (∀ i, Lossless (x.get i) (shippedNet.mean.get i) (shippedNet.scale.get i) ↔
        (x.get i).toInt < scalerLimit i) ∧
      (∀ i, i = 0 ∨ i = 2 ∨ i = 3 → (x.get i).toInt < scalerLimit i) ∧
      ∀ y, LeftByRun y → ∀ i, (x.get i).toInt ≤ (y.get i).toInt →
        (y.get i).toInt < scalerLimit i →
          (scaled shippedNet x i).toInt ≤ (scaled shippedNet y i).toInt := by
  obtain ⟨hnonneg, hsmall⟩ := ranges_of_leftByRun hx
  refine ⟨?_, fun i ↦ lossless_shippedNet_iff (hnonneg i) i, ?_, ?_⟩
  · intro buffer
    exact cells_standardScaler x buffer shippedNet.mean shippedNet.scale features_fit
  · intro i hi
    exact lt_of_le_of_lt (hsmall i hi) (le_scalerLimit i)
  · intro y hy i hle hlimit
    have hscale := shippedNet_scale_pos i
    have hlossless := (lossless_shippedNet_iff ((ranges_of_leftByRun hy).1 i) i).mpr hlimit
    have hbelow := (lossless_shippedNet_iff (hnonneg i) i).mpr (lt_of_le_of_lt hle hlimit)
    exact scaleFeature_mono (by omega) hbelow hlossless hle

/-- Two packets of one flow, the second one at the time `gap`. -/
def twoPackets (gap : U64) : List Arrival :=
  [⟨hostFrame 7 40 false, ⟨0, 0, 0, 0, 0⟩, NnMaps.zero⟩,
    ⟨hostFrame 7 40 false, ⟨gap, gap, gap, gap, gap⟩, NnMaps.zero⟩]

theorem leftByRun_twoPackets {gap : U64} (hgap : gap.toNat < 2 ^ 63)
    {attr : FlowAttribute} (hattr : (mapAfter (twoPackets gap)).lookup (hostFlow 7) = some attr) :
    LeftByRun attr.features := by
  refine ⟨twoPackets gap, hostFlow 7, attr, ?_, ?_, ⟨?_, ?_⟩, hattr, rfl⟩
  · simp [twoPackets]
  · have hlength : (0 : ℤ) ≤ (bpfNtohs (hostFrame 7 40 false).ipHdr.totLen).toNat -
        4 * (hostFrame 7 40 false).ipHdr.ihl.toNat := by
      decide +kernel
    intro arrival hmem
    rcases List.mem_pair.mp hmem with rfl | rfl
    · exact hlength
    · exact hlength
  · simp [twoPackets, Arrival.time]
  · intro arrival hmem
    rcases List.mem_pair.mp hmem with rfl | rfl
    · simp [Arrival.time]
    · simp only [Arrival.time]
      omega

/-- A second between two packets is scaled exactly. -/
theorem scaler_exact_after_a_second :
    ∃ attr, (mapAfter (twoPackets 1000000000)).lookup (hostFlow 7) = some attr ∧
      (Lossless (attr.features.get 1) (shippedNet.mean.get 1) (shippedNet.scale.get 1) ↔
        (attr.features.get 1).toInt < scalerLimit 1) := by
  have hsome : ((mapAfter (twoPackets 1000000000)).lookup (hostFlow 7)).isSome := by
    decide +kernel
  obtain ⟨attr, hattr⟩ := Option.isSome_iff_exists.mp hsome
  exact ⟨attr, hattr, (scaler_exact_iff (leftByRun_twoPackets (by decide) hattr)).2.1 1⟩

/-- A gap of `2^48` nanoseconds above the mean is scaled to zero, as if it were the mean. -/
theorem scaled_zero_after_long_gap :
    ∃ x, LeftByRun x ∧ (scaled shippedNet x 1).toInt = 0 ∧
      (((x.get 1).toInt - (shippedNet.mean.get 1).toInt) * 65536).tdiv
        (shippedNet.scale.get 1).toInt = 767720753 := by
  have hduration : ((mapAfter (twoPackets 281486137777324)).lookup (hostFlow 7)).any
      (fun attr ↦ attr.maxDuration == 281486137777324) = true := by
    decide +kernel
  obtain ⟨attr, hattr, hvalue⟩ := (Option.any_eq_true _ _).mp hduration
  have hword : attr.maxDuration = 281486137777324 := by simpa using hvalue
  have hgap : attr.features.get 1 = 281486137777324 := hword
  refine ⟨attr.features, leftByRun_twoPackets (by decide) hattr, ?_, ?_⟩
  · rw [scaled, hgap]
    decide
  · rw [hgap]
    decide

end NNeBPF

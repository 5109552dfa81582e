import NNeBPF.Mlp.SafeRange
import NNeBPF.Xdp.Features

/-!
# When a layer narrows a value

Nothing in `linear_layer` looks at the range of `sum >> 16`.  With the shipped parameters the flows
of at most 8 000 000 packets keep all rows within 32 bits, so the pipeline computes the network over
the integers.  The header bytes and the packets of longer flows add up: after 25 000 000 packets the
first output is stored with the other sign, and the label changes.
-/

namespace NNeBPF

open Mlp FixedWidth IntervalBound

section

variable {attr : FlowAttribute}

/-- Where the scaler is exact, its results are those of the exact scaler. -/
theorem values_scaled (hlossless : ∀ i, Lossless (attr.features.get i) (shippedNet.mean.get i)
      (shippedNet.scale.get i)) :
    values (scaled shippedNet attr.features) =
      exactScaled fun i ↦ (attr.features.get i).toInt := by
  funext i
  exact (hlossless i).exact

/-- The features of a flow of at most 8 000 000 well-formed packets. -/
theorem features_inBox {count : ℕ} (hcount : count ≤ 8000000) (hranges : FeatureRanges count attr)
    (hduration : Lossless (attr.features.get 1) (shippedNet.mean.get 1) (shippedNet.scale.get 1)) :
    InBox (List.ofFn fun i ↦ (attr.features.get i).toInt) flowBox := by
  have hbounds : flowBox = List.ofFn fun i : Fin 6 ↦ flowBox.getD i (0, 0) := rfl
  have hscale : 0 < (shippedNet.scale.get 1).toInt := by decide
  have hmean : (shippedNet.mean.get 1).toInt = 11161066668 := by decide
  have hdistance := ((lossless_iff hscale).mp hduration).1
  rw [hmean, abs_lt] at hdistance
  have hcast : (count : ℤ) ≤ 8000000 := by exact_mod_cast hcount
  have hheader := hranges.headerLength
  have hnum := hranges.numPacket
  rw [hbounds]
  apply inBox_ofFn
  intro i
  fin_cases i
  · exact hranges.maxPacketLength
  · show -281463815643987 ≤ (attr.features.get 1).toInt ∧
      (attr.features.get 1).toInt ≤ 281486137777323
    omega
  · exact hranges.minPacketLength
  · exact hranges.dstPort
  · show 0 ≤ attr.headerLength.toInt ∧ attr.headerLength.toInt ≤ 480000000
    omega
  · show 0 ≤ attr.numPacket.toInt ∧ attr.numPacket.toInt ≤ 8000000
    omega

end

/-- On features that the scaler maps without loss, the pipeline agrees with the network over the
integers at every layer exactly if all rows of that network fit into 32 bits, and then it prints
its label.  In a flow of at most 8 000 000 packets they always fit. -/
theorem keepsValues_of_run {arrivals : List Arrival}
    (hlengths : ∀ arrival ∈ arrivals, 0 ≤ arrival.payloadLength) {f : Flow}
    {attr : FlowAttribute} (hattr : (mapAfter arrivals).lookup f = some attr)
    (hlossless : ∀ i, Lossless (attr.features.get i) (shippedNet.mean.get i)
      (shippedNet.scale.get i)) :
    (KeepsValues shippedNet attr.features ↔
        RowsFit shippedNet (values (scaled shippedNet attr.features))) ∧
      (KeepsValues shippedNet attr.features →
        label (referenceNetwork shippedNet attr.features) =
          exactLabel (exactOutputs shippedNet (values (scaled shippedNet attr.features)) 0)
            (exactOutputs shippedNet (values (scaled shippedNet attr.features)) 1)) ∧
      ((arrivals.filter (Arrival.belongsTo f)).length ≤ 8000000 →
        RowsFit shippedNet (values (scaled shippedNet attr.features))) := by
  refine ⟨keepsValues_iff smallWeights_shippedNet, label_of_keepsValues, ?_⟩
  intro hcount
  have hranges := featureRanges_replay (replay_filter_of_lookup hattr) (by omega)
    fun packet hpacket ↦ hlengths packet (List.mem_of_mem_filter hpacket)
  have hbox := features_inBox hcount hranges (hlossless 1)
  rw [values_scaled hlossless]
  exact rowsFit_of_flowBox hbox

/-! ## A long flow -/

/-- The fields of an entry whose packets are all like `packet`, apart from the two sums. -/
structure Repeats (packet : Arrival) (attr : FlowAttribute) : Prop where
  maxPacketLength : attr.maxPacketLength = packet.packetLength
  minPacketLength : attr.minPacketLength = packet.packetLength
  maxDuration : attr.maxDuration = 0
  lastPacketTime : attr.lastPacketTime = packet.ktime.packetTime
  dstPort : attr.dstPort = packet.newEntry.dstPort

theorem repeats_replicate {packet : Arrival} (hlength : packet.packetLength.toNat < 2 ^ 62 - 1)
    (count : ℕ) {attr : FlowAttribute}
    (hattr : replay (List.replicate (count + 1) packet) = some attr) : Repeats packet attr := by
  have hrecord (old : FlowAttribute)
      (hmax : unsignedMax old.maxPacketLength packet.packetLength = packet.packetLength)
      (hmin : unsignedMin old.minPacketLength packet.packetLength = packet.packetLength)
      (hduration : old.maxDuration = 0)
      (htime : old.lastPacketTime = packet.ktime.packetTime)
      (hport : old.dstPort = packet.newEntry.dstPort) : Repeats packet (packet.record old) := by
    have hzero : old.duration packet.ktime = 0 := by
      rw [FlowAttribute.duration, htime]
      exact BitVec.sub_self _
    refine ⟨hmax, hmin, ?_, rfl, hport⟩
    rw [Arrival.record, maxDuration_recordPacket, hduration, hzero, unsignedMax_zero_left]
  rw [List.replicate_succ', replay_concat, Option.some.injEq] at hattr
  subst hattr
  induction count with
  | zero =>
    have hinitial : packet.newEntry.minPacketLength.toNat = 2 ^ 62 - 1 := rfl
    apply hrecord
    · exact unsignedMax_zero_left _
    · apply BitVec.eq_of_toNat_eq
      show (unsignedMin packet.newEntry.minPacketLength packet.packetLength).toNat = _
      rw [toNat_unsignedMin, hinitial]
      omega
    · rfl
    · rfl
    · rfl
  | succ count ih =>
    rw [List.replicate_succ', replay_concat, Option.getD_some]
    apply hrecord
    · rw [ih.maxPacketLength]
      apply BitVec.eq_of_toNat_eq
      rw [toNat_unsignedMax, max_self]
    · rw [ih.minPacketLength]
      apply BitVec.eq_of_toNat_eq
      rw [toNat_unsignedMin, min_self]
    · exact ih.maxDuration
    · exact ih.lastPacketTime
    · exact ih.dstPort

theorem headerTotal_replicate (count : ℕ) (packet : Arrival) :
    headerTotal (List.replicate count packet) = count * (4 * packet.frame.tcpHdr.doff.toNat) := by
  rw [headerTotal, List.map_replicate, List.sum_replicate, smul_eq_mul]

/-- A packet with 20 bytes of payload and a header of 20 bytes. -/
def plainArrival : Arrival :=
  ⟨hostFrame 7 40 false, ⟨0, 0, 0, 0, 0⟩, NnMaps.zero⟩

/-- A flow of such packets. -/
def longFlow (count : ℕ) : List Arrival := List.replicate count plainArrival

theorem features_longFlow {count : ℕ} (hpos : 0 < count) :
    ∃ attr, (mapAfter (longFlow count)).lookup (hostFlow 7) = some attr ∧
      attr.features = #v[20, 0, 20, 80, BitVec.ofNat 64 (count * 20), BitVec.ofNat 64 count] := by
  have hbelongs : plainArrival.belongsTo (hostFlow 7) = true :=
    belongsTo_iff.mpr ⟨flowTuple_hostFrame 7 40 false, monitored_hostFlow 7⟩
  have hall : ∀ packet ∈ longFlow count, packet.belongsTo (hostFlow 7) = true := by
    intro packet hpacket
    rw [List.eq_of_mem_replicate hpacket]
    exact hbelongs
  have hne : longFlow count ≠ [] := by
    rw [longFlow, Ne, List.replicate_eq_nil_iff]
    exact hpos.ne'
  obtain ⟨attr, hattr⟩ := lookup_mapAfter_of_belongsTo hne hall
  have hreplay := replay_filter_of_lookup hattr
  rw [List.filter_eq_self.mpr hall] at hreplay
  have hlength : plainArrival.packetLength = 20 := by decide +kernel
  have hdoff : plainArrival.frame.tcpHdr.doff = 5 := by decide +kernel
  have hport : plainArrival.newEntry.dstPort = 80 := by decide +kernel
  have hrepeats : Repeats plainArrival attr.core := by
    rw [longFlow, ← Nat.succ_pred hpos.ne'] at hreplay
    exact repeats_replicate (by rw [hlength]; decide) _ hreplay
  have hheader := headerLength_replay hreplay
  have hcount := numPacket_replay hreplay
  rw [longFlow, headerTotal_replicate, hdoff] at hheader
  rw [longFlow, List.length_replicate] at hcount
  refine ⟨attr, hattr, ?_⟩
  rw [← features_core, FlowAttribute.features, hrepeats.maxPacketLength, hrepeats.maxDuration,
    hrepeats.minPacketLength, hrepeats.dstPort, hheader, hcount, hlength, hport]
  rfl

theorem wellFormed_longFlow (count : ℕ) :
    ∀ arrival ∈ longFlow count, 0 ≤ arrival.payloadLength ∧
      5 ≤ arrival.frame.tcpHdr.doff.toNat := by
  have hpacket : (0 : ℤ) ≤ (bpfNtohs (hostFrame 7 40 false).ipHdr.totLen).toNat -
      4 * (hostFrame 7 40 false).ipHdr.ihl.toNat ∧
        5 ≤ (hostFrame 7 40 false).tcpHdr.doff.toNat := by
    decide +kernel
  intro arrival harrival
  rw [List.eq_of_mem_replicate harrival]
  exact hpacket

/-- Two packets keep all rows in range. -/
theorem keepsValues_of_two_packets :
    ∃ attr, (mapAfter (longFlow 2)).lookup (hostFlow 7) = some attr ∧
      RowsFit shippedNet (values (scaled shippedNet attr.features)) := by
  obtain ⟨attr, hattr, hfeatures⟩ := features_longFlow (by decide : 0 < 2)
  have hlossless : ∀ i, Lossless (attr.features.get i) (shippedNet.mean.get i)
      (shippedNet.scale.get i) := by
    have hnonneg : ∀ i, 0 ≤ ((#v[20, 0, 20, 80, 40, 2] : Vector S64 6).get i).toInt := by decide
    have hbelow : ∀ i, ((#v[20, 0, 20, 80, 40, 2] : Vector S64 6).get i).toInt <
        scalerLimit i := by decide
    intro i
    rw [hfeatures]
    exact (lossless_shippedNet_iff (hnonneg i) i).mpr (hbelow i)
  have hfew : ((longFlow 2).filter (Arrival.belongsTo (hostFlow 7))).length ≤ 8000000 :=
    (List.length_filter_le _ _).trans (by decide)
  have hlengths : ∀ arrival ∈ longFlow 2, 0 ≤ arrival.payloadLength :=
    fun arrival harrival ↦ (wellFormed_longFlow 2 arrival harrival).1
  exact ⟨attr, hattr, (keepsValues_of_run hlengths hattr hlossless).2.2 hfew⟩

/-- The features of the flow of 25 000 000 packets. -/
def longFeatures : Vector S64 6 := #v[20, 0, 20, 80, 500000000, 25000000]

theorem ofFn_scaled_longFeatures :
    List.ofFn (values (scaled shippedNet longFeatures)) =
      [-80212, -30441, -19418, -16305, 656236563, 1050240488] := by
  decide +kernel

theorem exactOutputs_longFeatures :
    exactOutputs shippedNet (values (scaled shippedNet longFeatures)) =
      ![2175466512, -2005788052] := by
  apply List.ofFn_injective
  rw [← outputsList_ofFn, ofFn_scaled_longFeatures]
  decide +kernel

/-- The hidden layers of the long flow fit. -/
theorem hiddenLayers_longFeatures :
    (∀ i, Fits 32 (exactPreActivation1 shippedNet (values (scaled shippedNet longFeatures)) i)) ∧
      ∀ i,
        Fits 32 (exactPreActivation2 shippedNet (values (scaled shippedNet longFeatures)) i) := by
  have hforall {row : Fin 32 → ℤ} (hrow : ∀ value ∈ List.ofFn row, Fits 32 value) (i : Fin 32) :
      Fits 32 (row i) := hrow (row i) (List.mem_ofFn.mpr ⟨i, rfl⟩)
  constructor
  · apply hforall
    rw [← preActivation1List_ofFn, ofFn_scaled_longFeatures]
    decide +kernel
  · apply hforall
    rw [← preActivation2List_ofFn, ofFn_scaled_longFeatures]
    decide +kernel

/-- After 25 000 000 packets the scaler is still exact, but the first output is narrowed to a
negative number, and the printed label is not that of the network over the integers. -/
theorem label_ne_after_long_flow :
    (∀ arrival ∈ longFlow 25000000, 0 ≤ arrival.payloadLength ∧
        5 ≤ arrival.frame.tcpHdr.doff.toNat) ∧
      ∃ attr, (mapAfter (longFlow 25000000)).lookup (hostFlow 7) = some attr ∧
        (∀ i, Lossless (attr.features.get i) (shippedNet.mean.get i) (shippedNet.scale.get i)) ∧
        ¬ KeepsValues shippedNet attr.features ∧
        label (referenceNetwork shippedNet attr.features) = 1 ∧
        exactLabel (exactOutputs shippedNet (values (scaled shippedNet attr.features)) 0)
          (exactOutputs shippedNet (values (scaled shippedNet attr.features)) 1) = 0 := by
  constructor
  · exact wellFormed_longFlow 25000000
  · obtain ⟨attr, hattr, hfeatures⟩ := features_longFlow (by decide : 0 < 25000000)
    have hlong : attr.features = longFeatures := hfeatures
    refine ⟨attr, hattr, ?_⟩
    rw [hlong]
    refine ⟨?_, ?_, ?_, ?_⟩
    · intro i
      have hnonneg : ∀ i, 0 ≤ (longFeatures.get i).toInt := by decide
      have hbelow : ∀ i, (longFeatures.get i).toInt < scalerLimit i := by decide
      exact (lossless_shippedNet_iff (hnonneg i) i).mpr (hbelow i)
    · intro hkeeps
      have hfits := ((keepsValues_iff smallWeights_shippedNet).mp hkeeps).layer2 0
      rw [exactOutputs_longFeatures] at hfits
      exact absurd hfits (by decide)
    · obtain ⟨hlayer0, hlayer1⟩ := hiddenLayers_longFeatures
      have houtput (i : Fin 2) := toInt_referenceNetwork smallWeights_shippedNet hlayer0 hlayer1 i
      have hslt : ¬ ((referenceNetwork shippedNet longFeatures 1).slt
          (referenceNetwork shippedNet longFeatures 0) = true) := by
        rw [BitVec.slt_iff_toInt_lt, houtput, houtput, exactOutputs_longFeatures]
        decide
      exact if_neg hslt
    · rw [exactOutputs_longFeatures]
      decide

end NNeBPF

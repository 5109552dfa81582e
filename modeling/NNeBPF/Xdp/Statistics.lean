import NNeBPF.Xdp.Features
import NNeBPF.Xdp.PortReuse

/-!
# Statistics of a flow

The six features and the time that the extraction took, as numbers that are computed from the list
of a flow's packets: extremes, largest gap, sums and a count, without words and without an entry.
With well-formed packets and a clock that never goes back an entry holds the statistics of the
packets that were recorded in it.
-/

namespace NNeBPF

open Mlp

/-- The time between two packets that follow each other. -/
def gapList (packets : List Arrival) : List ℤ :=
  List.zipWith (fun earlier later ↦ later.time - earlier.time) packets packets.tail

/-- The six features by their meaning: the longest payload, the largest gap, the shortest payload,
the destination port, the bytes of all TCP headers and the number of packets. -/
def statistics (f : Flow) (packets : List Arrival) : Fin 6 → ℤ :=
  ![(packets.map Arrival.payloadLength).max?.getD 0, (gapList packets).max?.getD 0,
    (packets.map Arrival.payloadLength).min?.getD 0, (bpfNtohs (f.dport.setWidth 16)).toNat,
    headerTotal packets, packets.length]

/-- The time between the two clock readings that enclose the recording of the packet. -/
def Arrival.extractionTime (arrival : Arrival) : ℕ :=
  arrival.ktime.extractionEndTime.toNat - arrival.ktime.extractionStartTime.toNat

/-- The clock never goes back from one reading to the next, and it stays below `2^63`.  A reading
that a packet does not take may have any value in between. -/
structure SteadyReadings (arrivals : List Arrival) : Prop where
  within : ∀ arrival ∈ arrivals,
    arrival.ktime.packetTime.toNat ≤ arrival.ktime.extractionStartTime.toNat ∧
      arrival.ktime.extractionStartTime.toNat ≤ arrival.ktime.extractionEndTime.toNat ∧
      arrival.ktime.extractionEndTime.toNat ≤ arrival.ktime.detectionStartTime.toNat ∧
      arrival.ktime.detectionStartTime.toNat ≤ arrival.ktime.printTime.toNat ∧
      arrival.ktime.printTime.toNat < 2 ^ 63
  between : arrivals.Pairwise fun earlier later ↦
    earlier.ktime.printTime.toNat ≤ later.ktime.packetTime.toNat


/-! ## The statistics of an entry -/

/-- The greatest element of a list of numbers. -/
theorem getD_max?_of_isGreatest {numbers : List ℤ} {greatest : ℤ}
    (h : IsGreatest {number | number ∈ numbers} greatest) : numbers.max?.getD 0 = greatest := by
  have hmax : numbers.max? = some greatest := List.max?_eq_some_iff.mpr ⟨h.1, fun _ hmem ↦ h.2 hmem⟩
  rw [hmax, Option.getD_some]

theorem getD_min?_of_isLeast {numbers : List ℤ} {least : ℤ}
    (h : IsLeast {number | number ∈ numbers} least) : numbers.min?.getD 0 = least := by
  have hmin : numbers.min? = some least := List.min?_eq_some_iff.mpr ⟨h.1, fun _ hmem ↦ h.2 hmem⟩
  rw [hmin, Option.getD_some]

/-- The list of gaps holds the gaps. -/
theorem mem_gapList_iff {packets : List Arrival} {gap : ℤ} :
    gap ∈ gapList packets ↔ gap ∈ gaps packets := by
  induction packets with
  | nil => simp [gapList, gaps]
  | cons first later ih =>
    cases later with
    | nil => simp [gapList, gaps_singleton]
    | cons second later =>
      have hlist : gapList (first :: second :: later) =
          (second.time - first.time) :: gapList (second :: later) := rfl
      rw [hlist, List.mem_cons, ih]
      constructor
      · rintro (rfl | ⟨before, after, hpair, rfl⟩)
        · exact ⟨first, second, (List.prefix_append [first, second] later).isInfix, rfl⟩
        · exact ⟨before, after, List.infix_cons hpair, rfl⟩
      · rintro ⟨before, after, hpair, rfl⟩
        rcases List.infix_cons_iff.mp hpair with hprefix | hinfix
        · left
          obtain ⟨rest, hrest⟩ := hprefix
          simp only [List.cons_append, List.nil_append, List.cons.injEq] at hrest
          rw [hrest.1, hrest.2.1]
        · exact Or.inr ⟨before, after, hinfix, rfl⟩

/-- The greatest of a list of numbers that are not negative, where 0 stands for the empty list. -/
theorem getD_max?_of_nonneg {numbers : List ℤ} {greatest : ℤ}
    (hnonneg : ∀ number ∈ numbers, 0 ≤ number)
    (h : IsGreatest (insert 0 {number | number ∈ numbers}) greatest) :
    numbers.max?.getD 0 = greatest := by
  have hmax : IsGreatest (insert 0 {number | number ∈ numbers}) (numbers.max?.getD 0) := by
    cases hlist : numbers.max? with
    | none =>
      rw [List.max?_eq_none_iff] at hlist
      subst hlist
      exact ⟨Or.inl rfl, by simp⟩
    | some most =>
      obtain ⟨hmem, hle⟩ := List.max?_eq_some_iff.mp hlist
      refine ⟨Or.inr hmem, ?_⟩
      rintro number (rfl | hnumber)
      · exact hnonneg most hmem
      · exact hle number hnumber
  exact hmax.unique h

section

variable {packets : List Arrival} {attr : FlowAttribute} {f : Flow}

/-- The packets of a flow whose statistics the entry holds. -/
structure Accepted (f : Flow) (packets : List Arrival) : Prop where
  few : packets.length < 2 ^ 57
  belong : ∀ packet ∈ packets, packet.belongsTo f = true
  lengths : ∀ packet ∈ packets, 0 ≤ packet.payloadLength
  clock : SteadyReadings packets

theorem SteadyReadings.sublist {few arrivals : List Arrival} (h : SteadyReadings arrivals)
    (hsub : few.Sublist arrivals) : SteadyReadings few where
  within := fun arrival hmem ↦ h.within arrival (hsub.subset hmem)
  between := h.between.sublist hsub

/-- A clock that never goes back between any two readings never goes back between packets. -/
theorem SteadyReadings.steadyClock (h : SteadyReadings packets) : SteadyClock packets where
  ordered := by
    apply List.Pairwise.imp_of_mem _ h.between
    intro earlier later hearlier _ hle
    have hwithin := h.within earlier hearlier
    simp only [Arrival.time]
    omega
  bounded := by
    intro arrival hmem
    have hwithin := h.within arrival hmem
    simp only [Arrival.time]
    omega

/-- The features of an entry are the statistics of its packets. -/
theorem toInt_features (hattr : replay packets = some attr) (h : Accepted f packets) (i : Fin 6) :
    (attr.features.get i).toInt = statistics f packets i := by
  have hextremes := trueExtremes_of_nonneg hattr h.lengths
  have hclipped {packet : Arrival} (hpacket : packet ∈ packets) :
      packet.clippedLength = packet.payloadLength := max_eq_right (h.lengths packet hpacket)
  have hset : {length | ∃ packet ∈ packets, packet.clippedLength = length} =
      {number | number ∈ packets.map Arrival.payloadLength} := by
    ext length
    simp only [Set.mem_ofPred_eq, List.mem_map]
    constructor
    · rintro ⟨packet, hpacket, rfl⟩
      exact ⟨packet, hpacket, (hclipped hpacket).symm⟩
    · rintro ⟨packet, hpacket, rfl⟩
      exact ⟨packet, hpacket, hclipped hpacket⟩
  have hranges := featureRanges_replay hattr h.few h.lengths
  have hsteady := h.clock.steadyClock
  fin_cases i
  · exact (getD_max?_of_isGreatest (hset ▸ hextremes.isGreatest)).symm
  · have hdurationLt := toNat_maxDuration_lt hsteady hattr
    have hduration : attr.maxDuration.toInt = attr.maxDuration.toNat :=
      BitVec.toInt_eq_toNat_of_lt (by omega)
    have hgreatest : IsGreatest (insert 0 {gap | gap ∈ gapList packets})
        (attr.maxDuration.toNat : ℤ) := by
      have hgaps : {gap | gap ∈ gapList packets} = gaps packets :=
        Set.ext fun gap ↦ mem_gapList_iff
      rw [hgaps]
      obtain rfl | ⟨init, last, rfl⟩ := packets.eq_nil_or_concat'
      · cases hattr
      · exact (durations_replay init hsteady hattr).2
    exact hduration.trans (getD_max?_of_nonneg
      (fun gap hgap ↦ gaps_nonneg hsteady (mem_gapList_iff.mp hgap)) hgreatest).symm
  · exact (getD_min?_of_isLeast (hset ▸ hextremes.isLeast)).symm
  · have hport := (bpfNtohs (f.dport.setWidth 16)).isLt
    have hword : attr.dstPort.toInt = (bpfNtohs (f.dport.setWidth 16)).toNat := by
      rw [dstPort_replay h.belong hattr, Handling.dstPortOf, BitVec.toInt_eq_toNat_of_lt] <;>
        rw [BitVec.toNat_setWidth] <;> omega
    exact hword
  · have hheader := headerTotal_le packets
    have hfew := h.few
    have hword : attr.headerLength.toInt = headerTotal packets := by
      rw [headerLength_replay hattr, toInt_ofNat_of_lt (by omega)]
    exact hword
  · exact hranges.numPacket

/-! ## The times in a line -/

/-- The recordings of packets one after another take no longer than the clock shows at the end of
the last one. -/
theorem sum_extractionTime_le (init : List Arrival) {last : Arrival}
    (h : SteadyReadings (init ++ [last])) :
    ((init ++ [last]).map Arrival.extractionTime).sum ≤ last.ktime.extractionEndTime.toNat := by
  induction init using List.reverseRecOn generalizing last with
  | nil => simp [Arrival.extractionTime]
  | append_singleton init before ih =>
    have hbefore := ih (h.sublist (List.sublist_append_left _ _))
    have hlast := h.within last (by simp)
    have hearlier := h.within before (by simp)
    have hbetween : before.ktime.printTime.toNat ≤ last.ktime.packetTime.toNat :=
      (List.pairwise_append.mp h.between).2.2 before (by simp) last (by simp)
    have htime : last.extractionTime =
        last.ktime.extractionEndTime.toNat - last.ktime.extractionStartTime.toNat := rfl
    rw [List.map_append, List.sum_append, List.map_singleton, List.sum_singleton, htime]
    omega

theorem toNat_totalFeatureExtractionTime_replay (hattr : replay packets = some attr)
    (h : SteadyReadings packets) :
    attr.totalFeatureExtractionTime.toNat = (packets.map Arrival.extractionTime).sum := by
  induction packets using List.reverseRecOn generalizing attr with
  | nil => cases hattr
  | append_singleton packets packet ih =>
    have hle := sum_extractionTime_le packets h
    have hwithin := h.within packet (by simp)
    rw [replay_concat, Option.some.injEq] at hattr
    subst hattr
    have hrecord (old : FlowAttribute) :
        (packet.record old).totalFeatureExtractionTime = old.totalFeatureExtractionTime +
          (packet.ktime.extractionEndTime - packet.ktime.extractionStartTime) := rfl
    have hbefore : ((replay packets).getD packet.newEntry).totalFeatureExtractionTime.toNat =
        (packets.map Arrival.extractionTime).sum := by
      cases hold : replay packets with
      | none =>
        rw [replay_eq_none_iff] at hold
        subst hold
        rfl
      | some old => exact ih hold (h.sublist (List.sublist_append_left _ _))
    have hspan : (packet.ktime.extractionEndTime - packet.ktime.extractionStartTime).toNat =
        packet.extractionTime := BitVec.toNat_sub_of_le (BitVec.le_def.mpr hwithin.2.1)
    rw [List.map_append, List.sum_append, List.map_singleton, List.sum_singleton] at hle ⊢
    rw [hrecord, BitVec.toNat_add, hbefore, hspan, Nat.mod_eq_of_lt (by omega)]

end

end NNeBPF

import NNeBPF.Xdp.Sequential

/-!
# Gaps between packets

With a clock that never goes back the unsigned difference of two readings is the time between them.
Then `max_duration` of an entry is the largest gap between consecutive packets of its flow, and
`last_packet_time` is the time of the last one.  Frames of other flows, detections and updates of
the network in between leave both alone.
-/

namespace NNeBPF

/-- `packet_time` as a number. -/
def Arrival.time (arrival : Arrival) : ℤ := arrival.ktime.packetTime.toNat

/-- The clock never goes back, and it stays below `2^63`. -/
structure SteadyClock (arrivals : List Arrival) : Prop where
  ordered : arrivals.Pairwise fun earlier later ↦ earlier.time ≤ later.time
  bounded : ∀ arrival ∈ arrivals, arrival.time < 2 ^ 63

theorem SteadyClock.sublist {few arrivals : List Arrival} (h : SteadyClock arrivals)
    (hsub : few.Sublist arrivals) : SteadyClock few where
  ordered := h.ordered.sublist hsub
  bounded := fun arrival hmem ↦ h.bounded arrival (hsub.subset hmem)

/-- The times between consecutive packets. -/
def gaps (packets : List Arrival) : Set ℤ :=
  {gap | ∃ earlier later, [earlier, later] <:+: packets ∧ later.time - earlier.time = gap}

theorem gaps_singleton (packet : Arrival) : gaps [packet] = ∅ := by
  ext gap
  simp only [gaps, Set.mem_ofPred_eq, Set.mem_empty_iff_false, iff_false, not_exists, not_and]
  intro earlier later hpair
  have hlength := hpair.length_le
  simp at hlength

/-- A consecutive pair of a longer run ends with the new packet, or it was there before. -/
theorem gaps_concat (packets : List Arrival) (last next : Arrival) :
    gaps (packets ++ [last] ++ [next]) =
      insert (next.time - last.time) (gaps (packets ++ [last])) := by
  ext gap
  simp only [gaps, Set.mem_ofPred_eq, Set.mem_insert_iff]
  constructor
  · rintro ⟨earlier, later, hpair, rfl⟩
    rcases List.infix_concat_iff.mp hpair with hlast | hbefore
    · left
      rw [List.append_assoc] at hlast
      have hends : [earlier, later] = [last, next] := by
        obtain ⟨front, hfront⟩ := hlast
        exact (List.append_inj' hfront rfl).2
      obtain ⟨rfl, rfl⟩ : earlier = last ∧ later = next := by simpa using hends
      rfl
    · exact Or.inr ⟨earlier, later, hbefore, rfl⟩
  · rintro (rfl | ⟨earlier, later, hpair, rfl⟩)
    · exact ⟨last, next, ⟨packets, [], by simp⟩, rfl⟩
    · exact ⟨earlier, later, hpair.trans (List.prefix_append _ _).isInfix, rfl⟩

theorem gaps_nonneg {packets : List Arrival} (hclock : SteadyClock packets) {gap : ℤ}
    (hgap : gap ∈ gaps packets) : 0 ≤ gap := by
  obtain ⟨earlier, later, hpair, rfl⟩ := hgap
  have hordered := (hclock.sublist hpair.sublist).ordered
  have hle : earlier.time ≤ later.time := by simpa using hordered
  exact sub_nonneg.mpr hle

theorem gaps_lt {packets : List Arrival} (hclock : SteadyClock packets) {gap : ℤ}
    (hgap : gap ∈ gaps packets) : gap < 2 ^ 63 := by
  obtain ⟨earlier, later, hpair, rfl⟩ := hgap
  have hbound := hclock.bounded later (hpair.subset (by simp))
  have hnonneg : 0 ≤ earlier.time := Int.natCast_nonneg _
  omega

/-- The first two packets of a run are consecutive. -/
theorem gaps_nonempty {packets : List Arrival} (h : 2 ≤ packets.length) :
    (gaps packets).Nonempty := by
  match packets, h with
  | first :: second :: later, _ =>
    exact ⟨_, first, second, (List.prefix_append [first, second] later).isInfix, rfl⟩

/-! ## What recording does to the times -/

theorem toNat_maxDuration_record (arrival : Arrival) (attr : FlowAttribute) :
    (arrival.record attr).maxDuration.toNat =
      max (attr.duration arrival.ktime).toNat attr.maxDuration.toNat := by
  rw [Arrival.record, maxDuration_recordPacket, toNat_unsignedMax, max_comm]

/-- The two fields after a run of recorded packets. -/
theorem durations_replay (init : List Arrival) {last : Arrival} {attr : FlowAttribute}
    (hclock : SteadyClock (init ++ [last])) (hattr : replay (init ++ [last]) = some attr) :
    attr.lastPacketTime = last.ktime.packetTime ∧
      IsGreatest (insert 0 (gaps (init ++ [last]))) (attr.maxDuration.toNat : ℤ) := by
  rw [replay_concat, Option.some.injEq] at hattr
  subst hattr
  refine ⟨rfl, ?_⟩
  rw [toNat_maxDuration_record]
  induction init using List.reverseRecOn generalizing last with
  | nil =>
    have hzero : (last.newEntry.duration last.ktime).toNat = 0 := by
      have hduration : last.newEntry.duration last.ktime = 0 := BitVec.sub_self _
      rw [hduration]
      rfl
    have hinitial : last.newEntry.maxDuration.toNat = 0 := rfl
    have hempty : gaps ([] ++ [last]) = ∅ := gaps_singleton last
    rw [hempty, insert_empty_eq, replay, Option.getD_none, hzero, hinitial]
    exact isGreatest_singleton
  | append_singleton init before ih =>
    have hbefore : SteadyClock (init ++ [before]) :=
      hclock.sublist (List.prefix_append _ _).sublist
    have hgreatest := ih hbefore
    rw [← toNat_maxDuration_record] at hgreatest
    set old := before.record ((replay init).getD before.newEntry) with hold
    have hreplay : replay (init ++ [before]) = some old := replay_concat init before
    have hlast : old.lastPacketTime = before.ktime.packetTime := rfl
    have hordered : before.time ≤ last.time := by
      have hpair := List.pairwise_append.mp hclock.ordered
      exact hpair.2.2 before (by simp) last (by simp)
    have hle : old.lastPacketTime ≤ last.ktime.packetTime := by
      rw [hlast, BitVec.le_def]
      exact Int.ofNat_le.mp hordered
    have hduration : ((old.duration last.ktime).toNat : ℤ) = last.time - before.time := by
      rw [FlowAttribute.toNat_duration_of_le hle, Nat.cast_sub (BitVec.le_def.mp hle), hlast]
      rfl
    rw [hreplay, Option.getD_some, gaps_concat, Nat.cast_max, hduration, Set.insert_comm]
    exact hgreatest.insert _

/-- A gap is smaller than the time on the clock. -/
theorem toNat_maxDuration_lt {packets : List Arrival} {attr : FlowAttribute}
    (hclock : SteadyClock packets) (hattr : replay packets = some attr) :
    attr.maxDuration.toNat < 2 ^ 63 := by
  rcases packets.eq_nil_or_concat' with rfl | ⟨init, last, rfl⟩
  · cases hattr
  · obtain ⟨-, hgreatest⟩ := durations_replay init hclock hattr
    rcases hgreatest.1 with hzero | hgap
    · omega
    · have hlt := gaps_lt hclock hgap
      omega

/-- With a clock that never goes back, `last_packet_time` is the time of the last packet of the flow
and `max_duration` the largest gap between two consecutive ones. -/
theorem durations_of_steadyClock (arrivals : List Arrival) (hclock : SteadyClock arrivals)
    {f : Flow} {attr : FlowAttribute} (hattr : (mapAfter arrivals).lookup f = some attr) :
    let packets := arrivals.filter (Arrival.belongsTo f)
    (∃ last, packets.getLast? = some last ∧ attr.lastPacketTime = last.ktime.packetTime) ∧
      (packets.length = 1 → attr.maxDuration.toInt = 0) ∧
      (2 ≤ packets.length → IsGreatest (gaps packets) attr.maxDuration.toInt) := by
  intro packets
  have hreplay : replay packets = some attr.core := replay_filter_of_lookup hattr
  have hsteady : SteadyClock packets := hclock.sublist List.filter_sublist
  rcases packets.eq_nil_or_concat' with hempty | ⟨init, last, hpackets⟩
  · rw [hempty] at hreplay
    cases hreplay
  · rw [hpackets] at hreplay hsteady ⊢
    obtain ⟨hlast, hgreatest⟩ := durations_replay init hsteady hreplay
    have hnat : (attr.core.maxDuration.toNat : ℤ) = attr.maxDuration.toNat := rfl
    rw [hnat] at hgreatest
    have hcore : attr.core.maxDuration.toNat < 2 ^ 63 := toNat_maxDuration_lt hsteady hreplay
    have hsmall : attr.maxDuration.toNat < 2 ^ 63 := hcore
    have hint : attr.maxDuration.toInt = attr.maxDuration.toNat :=
      BitVec.toInt_eq_toNat_of_lt (by omega)
    rw [hint]
    refine ⟨⟨last, List.getLast?_concat, hlast⟩, ?_, ?_⟩
    · intro hone
      have hinit : init = [] := by simpa using hone
      rw [hinit, List.nil_append, gaps_singleton, insert_empty_eq] at hgreatest
      exact hgreatest.1
    · intro htwo
      obtain ⟨gap, hgap⟩ := gaps_nonempty htwo
      refine ⟨?_, fun other hother ↦ hgreatest.2 (Set.mem_insert_of_mem _ hother)⟩
      -- If the maximum is the 0 put in, every gap is 0.
      rcases hgreatest.1 with hzero | hmem
      · have hle := hgreatest.2 (Set.mem_insert_of_mem _ hgap)
        have heq : gap = attr.maxDuration.toNat :=
          le_antisymm hle (hzero ▸ gaps_nonneg hsteady hgap)
        rw [← heq]
        exact hgap
      · exact hmem

/-- Three packets of one flow, with a packet of another flow between them. -/
theorem durations_of_steadyClock_hostFrame :
    let nn : NnMaps := ⟨#v[Net.zero, Net.zero], #v[1]⟩
    let arrivals : List Arrival := [⟨hostFrame 7 60 false, ⟨3, 3, 3, 3, 3⟩, nn⟩,
      ⟨hostFrame 9 60 false, ⟨5, 5, 5, 5, 5⟩, nn⟩, ⟨hostFrame 7 40 true, ⟨9, 9, 9, 9, 9⟩, nn⟩]
    ∃ attr, (mapAfter arrivals).lookup (hostFlow 7) = some attr ∧
      IsGreatest (gaps (arrivals.filter (Arrival.belongsTo (hostFlow 7))))
        attr.maxDuration.toInt := by
  intro nn arrivals
  have hsome : ((mapAfter arrivals).lookup (hostFlow 7)).isSome := by decide +kernel
  obtain ⟨attr, hattr⟩ := Option.isSome_iff_exists.mp hsome
  have hclock : SteadyClock arrivals := by
    constructor
    · simp [arrivals, Arrival.time]
    · simp [arrivals, Arrival.time]
  have htwo : 2 ≤ (arrivals.filter (Arrival.belongsTo (hostFlow 7))).length := by decide +kernel
  exact ⟨attr, hattr, (durations_of_steadyClock arrivals hclock hattr).2.2 htwo⟩

end NNeBPF

import NNeBPF.Library.FirstCome
import NNeBPF.Xdp.Sequential

/-!
# The capacity of the flow map

An entry of `flow_map` is never deleted, so a flow that has ended keeps its place.  After any run
the map holds the first 8192 flows of the monitored host that the run has seen.  Packets of these
flows are recorded and their FIN or RST starts a detection; packets of all later flows are ignored,
however few connections are open at a time.
-/

namespace NNeBPF

/-- The flow of the frame, if it is an accepted packet of the monitored host. -/
def Arrival.monitoredFlow (arrival : Arrival) : Option Flow :=
  (flowTuple arrival.frame).filter Flow.monitored

/-- The flows of the monitored host, in the order of their first packets. -/
def flowsInOrder (arrivals : List Arrival) : List Flow :=
  (arrivals.filterMap Arrival.monitoredFlow).eraseDups

/-- The flows that find a place in the map. -/
def firstFlows (arrivals : List Arrival) : List Flow :=
  (flowsInOrder arrivals).take maxPacketReacord

/-- The open flows: those with an accepted packet and since then no FIN or RST. -/
def openFlows (arrivals : List Arrival) : Finset Flow :=
  arrivals.foldl
    (fun flows arrival ↦
      match arrival.monitoredFlow with
      | none => flows
      | some f => if arrival.frame.tcpHdr.closes then flows.erase f else insert f flows)
    ∅

/-- After its `xdp_prog` step the packet's flow has an entry, and the entry has counted the packet
together with all earlier ones of the flow. -/
def Counted (f : Flow) (earlier : List Arrival) (arrival : Arrival) : Prop :=
  ∃ attr,
    (exec .xdpProg arrival.ktime arrival.nn arrival.frame (mapAfter earlier)).flowMap.lookup f =
        some attr ∧
      attr.numPacket = BitVec.ofNat 64 ((earlier ++ [arrival]).countP (Arrival.belongsTo f))

/-- The packet is handed over to the first stage of a detection. -/
def StartsDetection (earlier : List Arrival) (arrival : Arrival) : Prop :=
  ∃ execution ∈ arrival.executions (mapAfter earlier), execution.program = .xdpPreprocessing

theorem monitoredFlow_eq_some_iff {arrival : Arrival} {f : Flow} :
    arrival.monitoredFlow = some f ↔ arrival.belongsTo f = true := by
  rw [belongsTo_iff, Arrival.monitoredFlow, Option.filter_eq_some_iff]

theorem monitoredFlow_eq_none {arrival : Arrival} (h : arrival.monitoredFlow = none) (f : Flow) :
    arrival.belongsTo f = false := by
  by_contra hbelongs
  have hsome : arrival.monitoredFlow = some f :=
    monitoredFlow_eq_some_iff.mpr (by simpa using hbelongs)
  rw [h] at hsome
  cases hsome

/-! ## The keys of the map -/

/-- A packet of the monitored host takes a place if there is one. -/
theorem keys_process {arrival : Arrival} {f : Flow} (hflow : arrival.belongsTo f = true)
    (flowMap : FlowMap) :
    (process flowMap arrival).keys = FirstCome.takeIn maxPacketReacord flowMap.keys f := by
  unfold FirstCome.takeIn
  split_ifs with hroom
  · exact keys_process_of_records ((records_iff hflow).mpr hroom)
  · have hrecords : records f flowMap arrival = false := by
      by_contra hrecorded
      exact hroom ((records_iff hflow).mp (by simpa using hrecorded))
    rw [process_of_not_records hflow hrecords]

theorem keys_mapAfter_eq_foldl (arrivals : List Arrival) :
    (mapAfter arrivals).keys =
      (arrivals.filterMap Arrival.monitoredFlow).foldl (FirstCome.takeIn maxPacketReacord) ∅ := by
  induction arrivals using List.reverseRecOn with
  | nil => rfl
  | append_singleton arrivals arrival ih =>
    rw [mapAfter_concat, List.filterMap_append, List.foldl_append, ← ih]
    cases hflow : arrival.monitoredFlow with
    | none =>
      rw [process_of_not_belongsTo (monitoredFlow_eq_none hflow)]
      simp [hflow]
    | some f =>
      rw [keys_process (monitoredFlow_eq_some_iff.mp hflow)]
      simp [hflow]

/-- The map holds the first flows of the run and no others. -/
theorem keys_mapAfter (arrivals : List Arrival) :
    (mapAfter arrivals).keys = (firstFlows arrivals).toFinset := by
  rw [keys_mapAfter_eq_foldl, FirstCome.foldl_takeIn]
  rfl

/-- Later packets do not change whether a flow is among the first ones. -/
theorem mem_firstFlows_append {front : List Arrival} {f : Flow}
    (hf : f ∈ front.filterMap Arrival.monitoredFlow) (later : List Arrival) :
    f ∈ firstFlows (front ++ later) ↔ f ∈ firstFlows front := by
  unfold firstFlows flowsInOrder
  rw [List.filterMap_append]
  exact FirstCome.mem_take_eraseDups_append hf _ _

/-! ## What a packet of the monitored host does -/

section

variable {arrival : Arrival} {f : Flow} {flowMap : FlowMap}

/-- `xdp_prog` leaves the entry that `update_flow_attribute` makes, up to its index. -/
theorem map_core_lookup_xdpProg (h : arrival.belongsTo f = true) :
    ((exec .xdpProg arrival.ktime arrival.nn arrival.frame flowMap).flowMap.lookup f).map
        FlowAttribute.core =
      ((arrival.update f flowMap).lookup f).map FlowAttribute.core := by
  obtain ⟨hframe, hhost⟩ := belongsTo_iff.mp h
  have hprog := xdpProg_of_flowTuple_eq_some hframe arrival.ktime arrival.nn flowMap
  simp only [hhost, if_true] at hprog
  simp only [exec]
  rw [hprog]
  unfold Arrival.update Arrival.packetLength
  split
  · split
    · rename_i attr hattr
      rw [BpfMap.HashMap.lookup_modify_self, hattr]
      rfl
    · rfl
  · rfl

/-- A closing packet starts a detection exactly if its flow has an entry after the update. -/
theorem startsDetection_iff {earlier : List Arrival} (h : arrival.belongsTo f = true)
    (hcloses : arrival.frame.tcpHdr.closes = true) :
    StartsDetection earlier arrival ↔
      ((arrival.update f (mapAfter earlier)).lookup f).isSome := by
  obtain ⟨hframe, hhost⟩ := belongsTo_iff.mp h
  unfold StartsDetection Arrival.executions
  cases hattr : (arrival.update f (mapAfter earlier)).lookup f with
  | none =>
    have hpass : (exec .xdpProg arrival.ktime arrival.nn arrival.frame
        (mapAfter earlier)).exit = .pass := by
      rcases exit_eq_pass_or_closes arrival.ktime arrival.nn arrival.frame (mapAfter earlier) with
        hpass | ⟨flow, attr, hflow, -, -, hupdated⟩
      · exact hpass
      · obtain rfl : f = flow := Option.some.inj (hframe.symm.trans hflow)
        have hsome : (arrival.update f (mapAfter earlier)).lookup f = some attr := hupdated
        rw [hattr] at hsome
        cases hsome
    rw [receive_of_pass hpass]
    simp
  | some attr =>
    refine iff_of_true ?_ rfl
    have hprog := exec_xdpProg_of_closes hframe hhost hcloses arrival.ktime arrival.nn hattr
    unfold receive maxTailCallCnt
    rw [runChain]
    simp only [hprog, EntryOutcome.inMap, next_loadedProgs.1]
    rw [runChain]
    exact ⟨_, List.mem_cons_of_mem _ List.mem_cons_self, rfl⟩

/-- A packet is counted exactly if the map holds its flow afterwards. -/
theorem counted_iff {earlier : List Arrival} (h : arrival.belongsTo f = true) :
    Counted f earlier arrival ↔ f ∈ (mapAfter (earlier ++ [arrival])).keys := by
  have hprog : ((exec .xdpProg arrival.ktime arrival.nn arrival.frame
      (mapAfter earlier)).flowMap.lookup f).map FlowAttribute.core =
        ((mapAfter (earlier ++ [arrival])).lookup f).map FlowAttribute.core := by
    rw [map_core_lookup_xdpProg h, mapAfter_concat, map_core_lookup_process h]
  rw [BpfMap.HashMap.mem_keys_iff]
  constructor
  · rintro ⟨attr, hattr, -⟩
    rw [hattr, Option.map_some] at hprog
    obtain ⟨later, hlater, -⟩ := Option.map_eq_some_iff.mp hprog.symm
    exact ⟨later, hlater⟩
  · rintro ⟨later, hlater⟩
    rw [hlater, Option.map_some] at hprog
    obtain ⟨attr, hattr, hcore⟩ := Option.map_eq_some_iff.mp hprog
    have hreplay := replay_filter_of_lookup hlater
    refine ⟨attr, hattr, ?_⟩
    calc
      attr.numPacket = attr.core.numPacket := rfl
      _ = later.core.numPacket := by rw [hcore]
      _ = BitVec.ofNat 64 ((earlier ++ [arrival]).countP (Arrival.belongsTo f)) := by
        rw [numPacket_replay hreplay, List.countP_eq_length_filter]

end

/-- A packet of the monitored host is counted, and its FIN or RST starts a detection, exactly if its
flow is among the first 8192 flows of the run.  If the run has no more flows this is every packet.
-/
theorem counted_iff_mem_firstFlows {arrivals earlier later : List Arrival} {arrival : Arrival}
    (hsplit : arrivals = earlier ++ arrival :: later) {f : Flow}
    (hbelongs : arrival.belongsTo f = true) :
    (Counted f earlier arrival ↔ f ∈ firstFlows arrivals) ∧
      (arrival.frame.tcpHdr.closes = true →
        (StartsDetection earlier arrival ↔ f ∈ firstFlows arrivals)) ∧
      ((flowsInOrder arrivals).length ≤ maxPacketReacord → f ∈ firstFlows arrivals) := by
  have hrun : arrivals = (earlier ++ [arrival]) ++ later := by
    rw [hsplit, List.append_assoc, List.singleton_append]
  have hrequested : f ∈ (earlier ++ [arrival]).filterMap Arrival.monitoredFlow := by
    rw [List.mem_filterMap]
    exact ⟨arrival, by simp, monitoredFlow_eq_some_iff.mpr hbelongs⟩
  have hkeys : f ∈ (mapAfter (earlier ++ [arrival])).keys ↔ f ∈ firstFlows arrivals := by
    rw [keys_mapAfter, List.mem_toFinset, hrun, mem_firstFlows_append hrequested]
  refine ⟨(counted_iff hbelongs).trans hkeys, ?_, ?_⟩
  · intro hcloses
    have hupdate : (arrival.update f (mapAfter earlier)).keys =
        (mapAfter (earlier ++ [arrival])).keys := by
      rw [mapAfter_concat, keys_process_of_belongsTo hbelongs]
    rw [startsDetection_iff hbelongs hcloses, ← BpfMap.HashMap.mem_keys, hupdate]
    exact hkeys
  · intro hfew
    unfold firstFlows
    rw [List.take_of_length_le hfew]
    apply List.mem_eraseDups.mpr
    rw [hrun, List.filterMap_append]
    exact List.mem_append_left _ hrequested

/-- A SYN and a FIN of one flow. -/
theorem counted_iff_mem_firstFlows_hostFrame :
    let syn : Arrival := ⟨hostFrame 7 60 false, ⟨1, 1, 1, 1, 1⟩, NnMaps.zero⟩
    let fin : Arrival := ⟨hostFrame 7 40 true, ⟨9, 9, 9, 9, 9⟩, NnMaps.zero⟩
    Counted (hostFlow 7) [syn] fin ↔ hostFlow 7 ∈ firstFlows [syn, fin] := by
  intro syn fin
  have hsplit : [syn, fin] = [syn] ++ fin :: [] := rfl
  have hbelongs : fin.belongsTo (hostFlow 7) = true :=
    belongsTo_iff.mpr ⟨flowTuple_hostFrame 7 40 true, monitored_hostFlow 7⟩
  exact (counted_iff_mem_firstFlows hsplit hbelongs).1

/-! ## Finished flows keep their places -/

/-- A connection of the monitored host that consists of a single FIN. -/
def finOf (sport : BitVec 16) : Arrival := ⟨hostFrame sport 40 true, ⟨1, 1, 1, 1, 1⟩, NnMaps.zero⟩

/-- Single FINs from the first `n` source ports. -/
def fins (n : ℕ) : List Arrival := (List.range n).map fun port ↦ finOf (BitVec.ofNat 16 port)

theorem monitoredFlow_finOf (sport : BitVec 16) :
    (finOf sport).monitoredFlow = some (hostFlow sport) :=
  monitoredFlow_eq_some_iff.mpr
    (belongsTo_iff.mpr ⟨flowTuple_hostFrame sport 40 true, monitored_hostFlow sport⟩)

theorem hostFlow_ofNat_inj {port other : ℕ} (hport : port < 2 ^ 16) (hother : other < 2 ^ 16)
    (h : hostFlow (BitVec.ofNat 16 port) = hostFlow (BitVec.ofNat 16 other)) : port = other := by
  have hsport := congrArg (fun f : Flow ↦ f.sport.toNat) h
  simp only [hostFlow, BitVec.toNat_setWidth, BitVec.toNat_ofNat] at hsport
  omega

theorem flowsInOrder_fins {n : ℕ} (hn : n ≤ 2 ^ 16) :
    flowsInOrder (fins n) = (List.range n).map fun port ↦ hostFlow (BitVec.ofNat 16 port) := by
  have hflows : (fins n).filterMap Arrival.monitoredFlow =
      (List.range n).map fun port ↦ hostFlow (BitVec.ofNat 16 port) := by
    unfold fins
    rw [List.filterMap_map, ← List.filterMap_eq_map]
    congr 1
    funext port
    exact monitoredFlow_finOf _
  rw [flowsInOrder, hflows]
  apply FirstCome.eraseDups_of_nodup
  rw [List.nodup_map_iff_inj_on List.nodup_range]
  intro port hport other hother heq
  rw [List.mem_range] at hport hother
  exact hostFlow_ofNat_inj (by omega) (by omega) heq

/-- At no moment is a flow of such a run open. -/
theorem openFlows_of_fins {front : List Arrival} {n : ℕ} (h : front <+: fins n) :
    openFlows front = ∅ := by
  induction front using List.reverseRecOn with
  | nil => rfl
  | append_singleton front last ih =>
    have hlast : last ∈ fins n := h.subset (by simp)
    obtain ⟨port, -, rfl⟩ := List.mem_map.mp hlast
    have hcloses : (finOf (BitVec.ofNat 16 port)).frame.tcpHdr.closes = true :=
      closes_hostFrame _ 40 true
    have hfront := ih ((List.prefix_append _ _).trans h)
    unfold openFlows at hfront ⊢
    rw [List.foldl_append, hfront, List.foldl_cons, List.foldl_nil, monitoredFlow_finOf]
    simp [hcloses]

/-- After 8192 connections that ended at once, with none open at any moment, the FIN of one more is
neither counted nor does it start a detection. -/
theorem not_counted_after_fins :
    (∀ front, front <+: fins 8193 → (openFlows front).card ≤ maxPacketReacord) ∧
      fins 8193 = fins 8192 ++ [finOf 8192] ∧
      (finOf 8192).belongsTo (hostFlow 8192) = true ∧
      (finOf 8192).frame.tcpHdr.closes = true ∧
      ¬ Counted (hostFlow 8192) (fins 8192) (finOf 8192) ∧
      ¬ StartsDetection (fins 8192) (finOf 8192) := by
  have hsplit : fins 8193 = fins 8192 ++ [finOf 8192] := by
    unfold fins
    rw [List.range_succ, List.map_append]
    rfl
  have hbelongs : (finOf 8192).belongsTo (hostFlow 8192) = true :=
    monitoredFlow_eq_some_iff.mp (monitoredFlow_finOf 8192)
  have hcloses : (finOf 8192).frame.tcpHdr.closes = true := closes_hostFrame 8192 40 true
  have habsent : hostFlow 8192 ∉ (mapAfter (fins 8192 ++ [finOf 8192])).keys := by
    rw [← hsplit, keys_mapAfter, List.mem_toFinset, firstFlows, flowsInOrder_fins (by norm_num),
      ← List.map_take, List.take_range]
    intro hmem
    obtain ⟨port, hport, heq⟩ := List.mem_map.mp hmem
    have hlt : port < 8192 := by
      rw [List.mem_range] at hport
      exact lt_of_lt_of_le hport (min_le_left _ _)
    have hsame : port = 8192 := hostFlow_ofNat_inj (by omega) (by omega) heq
    omega
  refine ⟨?_, hsplit, hbelongs, hcloses, ?_, ?_⟩
  · intro front hfront
    rw [openFlows_of_fins hfront]
    exact Nat.zero_le _
  · rw [counted_iff hbelongs]
    exact habsent
  · rw [startsDetection_iff hbelongs hcloses, ← BpfMap.HashMap.mem_keys,
      ← keys_process_of_belongsTo hbelongs, ← mapAfter_concat]
    exact habsent

end NNeBPF

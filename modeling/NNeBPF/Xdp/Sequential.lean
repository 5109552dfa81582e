import NNeBPF.Library.Interleaving
import NNeBPF.Xdp.Pipeline

/-!
# Frames one after another

Each arriving frame is processed to the end, with all its tail calls, before the next one arrives.
A detection changes the buffers and the index of an entry only, so apart from these the map is what
`update_flow_attribute` alone would make of the accepted packets of the monitored host.
-/

namespace NNeBPF

/-- A frame, with the clock readings and the network maps that its programs see. -/
structure Arrival where
  frame : Frame
  ktime : Ktime
  nn : NnMaps

namespace Arrival

/-- The frame is an accepted packet of the monitored flow `f`. -/
def belongsTo (f : Flow) (arrival : Arrival) : Bool :=
  flowTuple arrival.frame == some f && f.monitored

/-- The length of the packet's IP payload as the code computes it. -/
def packetLength (arrival : Arrival) : U64 := arrival.frame.ipHdr.packetLength

/-- What recording the packet does to an entry. -/
def record (arrival : Arrival) (attr : FlowAttribute) : FlowAttribute :=
  recordPacket arrival.frame.tcpHdr arrival.packetLength arrival.ktime attr

/-- The entry that the packet creates if its flow is unknown. -/
def newEntry (arrival : Arrival) : FlowAttribute :=
  newFlowAttribute arrival.frame.tcpHdr arrival.ktime

/-- `update_flow_attribute` for the packet. -/
def update (f : Flow) (arrival : Arrival) (flowMap : FlowMap) : FlowMap :=
  updateFlowAttribute flowMap f arrival.frame.tcpHdr arrival.packetLength arrival.ktime

/-- Everything that the frame runs. -/
def executions (flowMap : FlowMap) (arrival : Arrival) : List Execution :=
  receive loadedProgs arrival.ktime arrival.nn arrival.frame flowMap

end Arrival

/-- The map after everything that the frame runs. -/
def process (flowMap : FlowMap) (arrival : Arrival) : FlowMap :=
  finalMap flowMap (arrival.executions flowMap)

/-- The packet is recorded in the entry of `f`: after it the map has such an entry. -/
def records (f : Flow) (flowMap : FlowMap) (arrival : Arrival) : Bool :=
  arrival.belongsTo f && ((process flowMap arrival).lookup f).isSome

/-- What is left of an entry without its buffers and its index. -/
def FlowAttribute.core (attr : FlowAttribute) : FlowAttribute :=
  withStale (Vector.replicate 32 0) (Vector.replicate 32 0) 0 attr

theorem features_core (attr : FlowAttribute) : attr.core.features = attr.features := rfl

theorem belongsTo_iff {f : Flow} {arrival : Arrival} :
    arrival.belongsTo f = true ↔ flowTuple arrival.frame = some f ∧ f.monitored = true := by
  simp [Arrival.belongsTo]

/-! ## One frame -/

section

variable {flowMap : FlowMap} {arrival : Arrival} {f : Flow}

/-- A detection ends with the recorded entry, up to its buffers and its index. -/
theorem finalMap_of_closes_eq_withStale {frame : Frame} (hframe : flowTuple frame = some f)
    (hhost : f.monitored = true) (hcloses : frame.tcpHdr.closes = true) (ktime : Ktime)
    (nn : NnMaps) {attr : FlowAttribute}
    (hattr : (updateFlowAttribute flowMap f frame.tcpHdr frame.ipHdr.packetLength ktime).lookup f =
      some attr) :
    ∃ hidden1 hidden2 nnIdx,
      finalMap flowMap (receive loadedProgs ktime nn frame flowMap) =
        (updateFlowAttribute flowMap f frame.tcpHdr frame.ipHdr.packetLength ktime).modify f
          fun _ ↦ withStale hidden1 hidden2 nnIdx attr := by
  cases hnet : BpfMap.ArrayMap.lookup nn.nnParameters nn.activeIdx with
  | some net =>
    have hdetect := detect_withStale net (pinned nn attr).hidden1 (pinned nn attr).hidden2
      (pinned nn attr).nnIdx (pinned nn attr)
    rw [withStale_self] at hdetect
    rw [finalMap_of_closes hframe hhost hcloses ktime nn hnet hattr, hdetect]
    exact ⟨_, _, _, rfl⟩
  | none =>
    -- No slot is selected, and `xdp_preprocessing` ends at its lookup.
    have hprog := exec_xdpProg_of_closes hframe hhost hcloses ktime nn hattr
    have hpass : entryStep f .xdpPreprocessing ktime nn frame (pinned nn attr) =
        .passed (pinned nn attr) := by
      have hidx : BpfMap.ArrayMap.lookup nn.nnParameters (pinned nn attr).nnIdx = none := hnet
      simp only [entryStep, preprocessingBody, onNet, hidx]
    have hchain : entryChain loadedProgs ktime nn frame f 32 .xdpPreprocessing (pinned nn attr) =
        [⟨.xdpPreprocessing, pinned nn attr, .passed (pinned nn attr)⟩] :=
      entryChain_of_pass 32 hpass rfl
    refine ⟨attr.hidden1, attr.hidden2, nn.activeIdx, ?_⟩
    unfold receive maxTailCallCnt
    rw [runChain]
    simp only [hprog, EntryOutcome.inMap, next_loadedProgs.1]
    rw [runChain_eq_map_entryChain hframe loadedProgs ktime nn hattr, hchain]
    rfl

/-- A frame that does not belong to the monitored host leaves the map alone. -/
theorem process_of_not_belongsTo (h : ∀ f, arrival.belongsTo f = false) :
    process flowMap arrival = flowMap := by
  have hexec : (exec .xdpProg arrival.ktime arrival.nn arrival.frame flowMap) =
      .passed flowMap := by
    cases hframe : flowTuple arrival.frame with
    | none => exact exec_of_flowTuple_eq_none hframe _ _ _ _
    | some f =>
      have hhost : f.monitored = false := by
        have hf := h f
        simpa [Arrival.belongsTo, hframe] using hf
      have hprog := xdpProg_of_flowTuple_eq_some hframe arrival.ktime arrival.nn flowMap
      simp only [hhost, Bool.false_eq_true, if_false] at hprog
      exact hprog
  have hpass : (exec .xdpProg arrival.ktime arrival.nn arrival.frame flowMap).exit = .pass := by
    rw [hexec]
    rfl
  unfold process Arrival.executions
  rw [receive_of_pass hpass, hexec]
  rfl

/-- A frame of the monitored host leaves the map that `update_flow_attribute` makes, up to the
buffers and the index of the entry of its flow. -/
theorem process_of_belongsTo (h : arrival.belongsTo f = true) :
    process flowMap arrival = arrival.update f flowMap ∨
      ∃ attr hidden1 hidden2 nnIdx, (arrival.update f flowMap).lookup f = some attr ∧
        process flowMap arrival =
          (arrival.update f flowMap).modify f fun _ ↦ withStale hidden1 hidden2 nnIdx attr := by
  obtain ⟨hframe, hhost⟩ := belongsTo_iff.mp h
  have hprog := xdpProg_of_flowTuple_eq_some hframe arrival.ktime arrival.nn flowMap
  simp only [hhost, if_true] at hprog
  cases hcloses : arrival.frame.tcpHdr.closes with
  | false =>
    left
    simp only [hcloses, Bool.false_eq_true, if_false] at hprog
    have hexec : exec .xdpProg arrival.ktime arrival.nn arrival.frame flowMap =
        .passed (arrival.update f flowMap) := hprog
    unfold process Arrival.executions
    rw [receive_of_pass (by rw [hexec]; rfl), hexec]
    rfl
  | true =>
    cases hattr : (arrival.update f flowMap).lookup f with
    | some attr =>
      right
      obtain ⟨hidden1, hidden2, nnIdx, hfinal⟩ :=
        finalMap_of_closes_eq_withStale hframe hhost hcloses arrival.ktime arrival.nn hattr
      exact ⟨attr, hidden1, hidden2, nnIdx, rfl, hfinal⟩
    | none =>
      left
      have hnone : (updateFlowAttribute flowMap f arrival.frame.tcpHdr
          arrival.frame.ipHdr.packetLength arrival.ktime).lookup f = none := hattr
      simp only [hcloses, if_true, hnone] at hprog
      have hexec : exec .xdpProg arrival.ktime arrival.nn arrival.frame flowMap =
          .passed (arrival.update f flowMap) := hprog
      unfold process Arrival.executions
      rw [receive_of_pass (by rw [hexec]; rfl), hexec]
      rfl

theorem keys_process_of_belongsTo (h : arrival.belongsTo f = true) :
    (process flowMap arrival).keys = (arrival.update f flowMap).keys := by
  rcases process_of_belongsTo h with hprocess | ⟨attr, hidden1, hidden2, nnIdx, -, hprocess⟩
  · rw [hprocess]
  · rw [hprocess, BpfMap.HashMap.keys_modify]

theorem map_core_lookup_process (h : arrival.belongsTo f = true) :
    ((process flowMap arrival).lookup f).map FlowAttribute.core =
      ((arrival.update f flowMap).lookup f).map FlowAttribute.core := by
  rcases process_of_belongsTo h with hprocess | ⟨attr, hidden1, hidden2, nnIdx, hattr, hprocess⟩
  · rw [hprocess]
  · rw [hprocess, BpfMap.HashMap.lookup_modify_self, hattr]
    rfl

/-- The entries of other flows do not change. -/
theorem lookup_process_of_not_belongsTo (h : arrival.belongsTo f = false) :
    (process flowMap arrival).lookup f = flowMap.lookup f := by
  by_cases hother : ∃ other, arrival.belongsTo other = true
  · obtain ⟨other, hother⟩ := hother
    have hne : f ≠ other := by
      rintro rfl
      rw [h] at hother
      cases hother
    have hupdate : (arrival.update other flowMap).lookup f = flowMap.lookup f :=
      lookup_updateFlowAttribute_of_ne _ _ _ _ hne
    rcases process_of_belongsTo hother with hprocess | ⟨attr, _, _, _, -, hprocess⟩
    · rw [hprocess, hupdate]
    · rw [hprocess, BpfMap.HashMap.lookup_modify_of_ne _ _ hne, hupdate]
  · have hnone : ∀ other, arrival.belongsTo other = false := by
      intro other
      by_contra hbelongs
      exact hother ⟨other, by simpa using hbelongs⟩
    rw [process_of_not_belongsTo hnone]

/-- A packet of an unknown flow that meets a full map. -/
theorem update_of_full (hfull : ¬ (f ∈ flowMap.keys ∨ flowMap.keys.card < maxPacketReacord)) :
    arrival.update f flowMap = flowMap := by
  rw [not_or, not_lt] at hfull
  apply updateFlowAttribute_of_full ((flowMap.lookup_eq_none_iff f).mpr hfull.1)
  exact le_antisymm flowMap.card_keys_le hfull.2

/-- A packet is recorded exactly if its flow is known or the map has room. -/
theorem records_iff (h : arrival.belongsTo f = true) :
    records f flowMap arrival = true ↔
      f ∈ flowMap.keys ∨ flowMap.keys.card < maxPacketReacord := by
  have hkeys : (process flowMap arrival).keys = (arrival.update f flowMap).keys :=
    keys_process_of_belongsTo h
  rw [records, h, Bool.true_and, ← BpfMap.HashMap.mem_keys, hkeys]
  constructor
  · intro hmem
    by_contra hfull
    rw [update_of_full hfull] at hmem
    exact hfull (Or.inl hmem)
  · intro hroom
    unfold Arrival.update
    rw [keys_updateFlowAttribute hroom]
    exact Finset.mem_insert_self f flowMap.keys

theorem belongsTo_of_records (h : records f flowMap arrival = true) :
    arrival.belongsTo f = true :=
  (Bool.and_eq_true_iff.mp h).1

theorem keys_process_of_records (h : records f flowMap arrival = true) :
    (process flowMap arrival).keys = insert f flowMap.keys := by
  have hbelongs := belongsTo_of_records h
  rw [keys_process_of_belongsTo hbelongs]
  exact keys_updateFlowAttribute ((records_iff hbelongs).mp h) _ _ _

/-- A recorded packet is counted in the entry of its flow, which is new if the flow was unknown. -/
theorem core_of_records (h : records f flowMap arrival = true) :
    ∃ attr, (process flowMap arrival).lookup f = some attr ∧
      attr.core = arrival.record ((flowMap.lookup f).getD arrival.newEntry).core := by
  have hbelongs := belongsTo_of_records h
  have hcore : ((process flowMap arrival).lookup f).map FlowAttribute.core =
      ((arrival.update f flowMap).lookup f).map FlowAttribute.core :=
    map_core_lookup_process hbelongs
  have hupdate : (arrival.update f flowMap).lookup f =
      some (arrival.record ((flowMap.lookup f).getD arrival.newEntry)) :=
    lookup_updateFlowAttribute_self ((records_iff hbelongs).mp h) _ _ _
  rw [hupdate, Option.map_some, Option.map_eq_some_iff] at hcore
  exact hcore

/-- A packet of `f` that is not recorded leaves the map as it is. -/
theorem process_of_not_records (hbelongs : arrival.belongsTo f = true)
    (h : records f flowMap arrival = false) : process flowMap arrival = flowMap := by
  have hfull : ¬ (f ∈ flowMap.keys ∨ flowMap.keys.card < maxPacketReacord) := by
    rw [← records_iff hbelongs, h]
    exact Bool.false_ne_true
  have hupdate : arrival.update f flowMap = flowMap := update_of_full hfull
  rcases process_of_belongsTo hbelongs with hprocess | ⟨attr, _, _, _, hattr, -⟩
  · rw [hprocess, hupdate]
  · rw [hupdate] at hattr
    exact absurd (Or.inl ((flowMap.mem_keys_iff f).mpr ⟨attr, hattr⟩)) hfull

/-- Without being recorded a packet changes nothing in the entry of a flow. -/
theorem lookup_process_of_not_records (h : records f flowMap arrival = false) :
    (process flowMap arrival).lookup f = flowMap.lookup f := by
  cases hbelongs : arrival.belongsTo f with
  | true => rw [process_of_not_records hbelongs h]
  | false => exact lookup_process_of_not_belongsTo hbelongs

end

/-! ## Runs of frames -/

/-- The map after a run of frames that begins with no flow known. -/
def mapAfter (arrivals : List Arrival) : FlowMap :=
  Interleaving.run process BpfMap.HashMap.empty arrivals

/-- The packets of a run that are recorded in the entry of `f`. -/
def recorded (f : Flow) (arrivals : List Arrival) : List Arrival :=
  Interleaving.selected process (records f) BpfMap.HashMap.empty arrivals

/-- The entry that recorded packets leave: the first one creates it, and all are counted in it. -/
def replay : List Arrival → Option FlowAttribute
  | [] => none
  | first :: later =>
    some ((first :: later).foldl (fun attr arrival ↦ arrival.record attr) first.newEntry)

theorem mapAfter_concat (arrivals : List Arrival) (arrival : Arrival) :
    mapAfter (arrivals ++ [arrival]) = process (mapAfter arrivals) arrival :=
  Interleaving.run_concat _ _ _ _

theorem recorded_concat (f : Flow) (arrivals : List Arrival) (arrival : Arrival) :
    recorded f (arrivals ++ [arrival]) =
      recorded f arrivals ++ if records f (mapAfter arrivals) arrival then [arrival] else [] :=
  Interleaving.selected_concat _ _ _ _ _

/-- One more recorded packet. -/
theorem replay_concat (packets : List Arrival) (arrival : Arrival) :
    replay (packets ++ [arrival]) =
      some (arrival.record ((replay packets).getD arrival.newEntry)) := by
  cases packets with
  | nil => rfl
  | cons first later =>
    rw [List.cons_append, replay, ← List.cons_append, List.foldl_append]
    rfl

theorem replay_eq_none_iff {packets : List Arrival} : replay packets = none ↔ packets = [] := by
  cases packets <;> simp [replay]

/-- Every recorded packet is counted. -/
theorem numPacket_replay {packets : List Arrival} {attr : FlowAttribute}
    (hattr : replay packets = some attr) :
    attr.numPacket = BitVec.ofNat 64 packets.length := by
  induction packets using List.reverseRecOn generalizing attr with
  | nil => cases hattr
  | append_singleton packets packet ih =>
    rw [replay_concat, Option.some.injEq] at hattr
    subst hattr
    have hrecord (old : FlowAttribute) : (packet.record old).numPacket = old.numPacket + 1 := rfl
    rw [hrecord, List.length_append, List.length_singleton, BitVec.ofNat_add]
    cases hold : replay packets with
    | none =>
      rw [replay_eq_none_iff] at hold
      subst hold
      rfl
    | some old =>
      rw [Option.getD_some, ih hold]
      rfl

/-- The entry of a flow is what its recorded packets make of it, up to the buffers and the index. -/
theorem map_core_lookup_mapAfter (f : Flow) (arrivals : List Arrival) :
    ((mapAfter arrivals).lookup f).map FlowAttribute.core = replay (recorded f arrivals) := by
  induction arrivals using List.reverseRecOn with
  | nil => rfl
  | append_singleton arrivals arrival ih =>
    rw [mapAfter_concat, recorded_concat]
    cases hrecords : records f (mapAfter arrivals) arrival with
    | false =>
      rw [lookup_process_of_not_records hrecords, ih]
      simp
    | true =>
      obtain ⟨attr, hattr, hcore⟩ := core_of_records hrecords
      have hbefore : (((mapAfter arrivals).lookup f).getD arrival.newEntry).core =
          (replay (recorded f arrivals)).getD arrival.newEntry := by
        rw [← ih]
        cases (mapAfter arrivals).lookup f <;> rfl
      rw [hattr, Option.map_some, hcore, hbefore, if_pos rfl, replay_concat]

/-! ## Known flows -/

/-- The known flows never become fewer. -/
theorem keys_subset_keys_process (flowMap : FlowMap) (arrival : Arrival) :
    flowMap.keys ⊆ (process flowMap arrival).keys := by
  by_cases hrecords : ∃ f, records f flowMap arrival = true
  · obtain ⟨f, hrecords⟩ := hrecords
    rw [keys_process_of_records hrecords]
    exact Finset.subset_insert f flowMap.keys
  · have hnone : ∀ f, records f flowMap arrival = false := by
      intro f
      by_contra hrecorded
      exact hrecords ⟨f, by simpa using hrecorded⟩
    have hsame : process flowMap arrival = flowMap := by
      apply BpfMap.HashMap.ext_lookup
      intro f
      exact lookup_process_of_not_records (hnone f)
    rw [hsame]

/-- A flow is counted from its first packet or not at all: a flow with an entry has all its packets
recorded, and a flow without one has none, or it met a full map. -/
theorem recorded_eq_filter_or_full (f : Flow) (arrivals : List Arrival) :
    recorded f arrivals = arrivals.filter (Arrival.belongsTo f) ∨
      f ∉ (mapAfter arrivals).keys ∧ (mapAfter arrivals).keys.card = maxPacketReacord := by
  induction arrivals using List.reverseRecOn with
  | nil => exact Or.inl rfl
  | append_singleton arrivals arrival ih =>
    rw [recorded_concat, List.filter_append, mapAfter_concat]
    cases hbelongs : arrival.belongsTo f with
    | false =>
      have hrecords : records f (mapAfter arrivals) arrival = false := by
        rw [records, hbelongs, Bool.false_and]
      rw [hrecords, List.filter_singleton, hbelongs]
      rcases ih with hall | ⟨habsent, hfull⟩
      · rw [hall]
        exact Or.inl rfl
      · right
        have hle := Finset.card_le_card (keys_subset_keys_process (mapAfter arrivals) arrival)
        rw [hfull] at hle
        refine ⟨?_, le_antisymm (process (mapAfter arrivals) arrival).card_keys_le hle⟩
        rw [← BpfMap.HashMap.lookup_eq_none_iff, lookup_process_of_not_records hrecords,
          BpfMap.HashMap.lookup_eq_none_iff]
        exact habsent
    | true =>
      rw [List.filter_singleton, hbelongs]
      cases hrecords : records f (mapAfter arrivals) arrival with
      | true =>
        left
        have hroom := (records_iff hbelongs).mp hrecords
        have hall : recorded f arrivals = arrivals.filter (Arrival.belongsTo f) := by
          apply ih.resolve_right
          rintro ⟨habsent, hfull⟩
          exact absurd (hroom.resolve_left habsent) (by omega)
        rw [hall]
        rfl
      | false =>
        right
        have hfull : ¬ (f ∈ (mapAfter arrivals).keys ∨
            (mapAfter arrivals).keys.card < maxPacketReacord) := by
          rw [← records_iff hbelongs, hrecords]
          exact Bool.false_ne_true
        rw [process_of_not_records hbelongs hrecords]
        rw [not_or, not_lt] at hfull
        exact ⟨hfull.1, le_antisymm (mapAfter arrivals).card_keys_le hfull.2⟩

/-- All accepted packets of a flow with an entry are recorded in it. -/
theorem recorded_eq_filter {f : Flow} {arrivals : List Arrival} {attr : FlowAttribute}
    (hattr : (mapAfter arrivals).lookup f = some attr) :
    recorded f arrivals = arrivals.filter (Arrival.belongsTo f) := by
  apply (recorded_eq_filter_or_full f arrivals).resolve_right
  rintro ⟨habsent, -⟩
  exact habsent (((mapAfter arrivals).mem_keys_iff f).mpr ⟨attr, hattr⟩)

/-- The entry of a flow is what all its packets make of it, up to the buffers and the index. -/
theorem replay_filter_of_lookup {f : Flow} {arrivals : List Arrival} {attr : FlowAttribute}
    (hattr : (mapAfter arrivals).lookup f = some attr) :
    replay (arrivals.filter (Arrival.belongsTo f)) = some attr.core := by
  rw [← recorded_eq_filter hattr, ← map_core_lookup_mapAfter, hattr]
  rfl

/-- The packets of a connection find their flow known or the map with room. -/
theorem room_append {f : Flow} {history : List Arrival}
    (hroom : f ∈ (mapAfter history).keys ∨ (mapAfter history).keys.card < maxPacketReacord)
    {packets : List Arrival} (hall : ∀ packet ∈ packets, packet.belongsTo f = true) :
    f ∈ (mapAfter (history ++ packets)).keys ∨
      (mapAfter (history ++ packets)).keys.card < maxPacketReacord := by
  induction packets using List.reverseRecOn with
  | nil => simpa using hroom
  | append_singleton packets packet ih =>
    have hbefore := ih fun other hother ↦ hall other (by simp [hother])
    have hpacket : packet.belongsTo f = true := hall packet (by simp)
    have hrecords := (records_iff hpacket).mpr hbefore
    left
    rw [← List.append_assoc, mapAfter_concat, keys_process_of_records hrecords]
    exact Finset.mem_insert_self f _

/-- A flow alone on the host has an entry from its first packet on. -/
theorem lookup_mapAfter_of_belongsTo {f : Flow} {packets : List Arrival} (hne : packets ≠ [])
    (hall : ∀ packet ∈ packets, packet.belongsTo f = true) :
    ∃ attr, (mapAfter packets).lookup f = some attr := by
  obtain ⟨init, last, rfl⟩ := (packets.eq_nil_or_concat').resolve_left hne
  have hempty : f ∈ (mapAfter []).keys ∨ (mapAfter []).keys.card < maxPacketReacord :=
    Or.inr (by decide)
  have hroom := room_append hempty fun packet hpacket ↦ hall packet (List.mem_append_left _ hpacket)
  have hrecords := (records_iff (hall last (by simp))).mpr hroom
  obtain ⟨attr, hattr, -⟩ := core_of_records hrecords
  rw [List.nil_append, ← mapAfter_concat] at hattr
  exact ⟨attr, hattr⟩

end NNeBPF

import NNeBPF.Library.Simulation
import NNeBPF.Mlp.ErrorBounds
import NNeBPF.Xdp.Capacity
import NNeBPF.Xdp.Statistics

/-!
# What the monitor is for

An abstract monitor follows the first 8192 flows of the monitored host and keeps the list of their
packets, nothing else.  At each packet with FIN or RST it reports on the whole list: the mean time
that a packet took, the time since the recording of this last packet, and the label that the network
gives to six statistics of the list.  There are no entries, buffers or tail calls in it.

The programs print exactly the reports of the abstract monitor, over whole runs of well-formed
packets with a clock that never goes back.
-/

namespace NNeBPF

open Mlp

/-! ## The abstract monitor -/

/-- One line of the log, in numbers. -/
structure Report where
  avgFeatureExtractionTime : ℕ
  detectionTime : ℕ
  label : ℕ
deriving DecidableEq

/-- The followed flows and their packets. -/
structure Monitor where
  followed : Finset Flow
  packets : Flow → List Arrival

/-- The network in the slot that `nn_idx[0]` selects. -/
def Arrival.net (arrival : Arrival) : Option Net :=
  BpfMap.ArrayMap.lookup arrival.nn.nnParameters arrival.nn.activeIdx

/-- What is reported about the packets of `f` when `last` closes the connection. -/
def reportOn (f : Flow) (packets : List Arrival) (last : Arrival) (net : Net) : Report where
  avgFeatureExtractionTime := (packets.map Arrival.extractionTime).sum / packets.length
  detectionTime := last.ktime.printTime.toNat - last.ktime.detectionStartTime.toNat
  label := label
    (referenceNetwork net (Vector.ofFn fun i ↦ BitVec.ofInt 64 (statistics f packets i)))

namespace Monitor

def empty : Monitor := ⟨∅, fun _ ↦ []⟩

/-- The monitor follows `f`, or it can begin to. -/
def Follows (monitor : Monitor) (f : Flow) : Prop :=
  f ∈ monitor.followed ∨ monitor.followed.card < maxPacketReacord

instance (monitor : Monitor) (f : Flow) : Decidable (monitor.Follows f) :=
  inferInstanceAs (Decidable (_ ∨ _))

def step (monitor : Monitor) (arrival : Arrival) : Monitor :=
  match arrival.monitoredFlow with
  | none => monitor
  | some f =>
    if monitor.Follows f then
      { followed := insert f monitor.followed
        packets := Function.update monitor.packets f (monitor.packets f ++ [arrival]) }
    else monitor

/-- The reports that a frame causes: one at the end of a connection, if a network is selected. -/
def report (monitor : Monitor) (arrival : Arrival) : List Report :=
  match arrival.monitoredFlow, arrival.net with
  | some f, some net =>
    if monitor.Follows f ∧ arrival.frame.tcpHdr.closes then
      [reportOn f (monitor.packets f ++ [arrival]) arrival net]
    else []
  | _, _ => []

end Monitor

/-! ## The log of the programs -/

/-- The lines that a frame prints. -/
def Arrival.lines (flowMap : FlowMap) (arrival : Arrival) : List Line :=
  printedLines (arrival.executions flowMap)

/-- A printed line in numbers. -/
def Line.report (line : Line) : Report where
  avgFeatureExtractionTime := line.avgFeatureExtractionTime.toNat
  detectionTime := line.detectionTime.toNat
  label := line.label

/-- Every accepted packet of the monitored host has `tot_len ≥ 4 * ihl`. -/
def WellFormedLengths (arrivals : List Arrival) : Prop :=
  ∀ arrival ∈ arrivals, arrival.monitoredFlow.isSome → 0 ≤ arrival.payloadLength

/-! ## A printed line -/

section

variable {attr : FlowAttribute} {f : Flow}

/-- A detection writes none of the three fields that the times are computed from. -/
theorem times_detect (net : Net) (nn : NnMaps) (attr : FlowAttribute) :
    (detect net (pinned nn attr)).totalFeatureExtractionTime =
        attr.core.totalFeatureExtractionTime ∧
      (detect net (pinned nn attr)).numPacket = attr.core.numPacket ∧
      (detect net (pinned nn attr)).detectionStartTime = attr.core.detectionStartTime := by
  have hdetect := detect_withStale net (pinned nn attr).hidden1 (pinned nn attr).hidden2
    (pinned nn attr).nnIdx (pinned nn attr)
  have hfields (hidden1 hidden2 : Vector S32 32) (nnIdx : S32) :
      (withStale hidden1 hidden2 nnIdx (pinned nn attr)).totalFeatureExtractionTime =
          attr.core.totalFeatureExtractionTime ∧
        (withStale hidden1 hidden2 nnIdx (pinned nn attr)).numPacket = attr.core.numPacket ∧
        (withStale hidden1 hidden2 nnIdx (pinned nn attr)).detectionStartTime =
          attr.core.detectionStartTime := ⟨rfl, rfl, rfl⟩
  rw [withStale_self] at hdetect
  rw [hdetect]
  exact hfields _ _ _

/-- A line printed for the recorded packets says what the abstract monitor reports on them. -/
theorem report_outputLine {init : List Arrival} {last : Arrival}
    (hattr : replay (init ++ [last]) = some attr.core) (h : Accepted f (init ++ [last]))
    (hcloses : last.frame.tcpHdr.closes = true) (nn : NnMaps) (net : Net) :
    (outputLine last.ktime (detect net (pinned nn attr))).report =
      reportOn f (init ++ [last]) last net := by
  have hwithin := h.clock.within last (by simp)
  have htotal := toNat_totalFeatureExtractionTime_replay hattr h.clock
  have hcount : attr.core.numPacket.toNat = (init ++ [last]).length := by
    have hfew := h.few
    rw [numPacket_replay hattr, BitVec.toNat_ofNat, Nat.mod_eq_of_lt (by omega)]
  have hstart : attr.core.detectionStartTime = last.ktime.detectionStartTime := by
    rw [replay_concat, Option.some.injEq] at hattr
    rw [← hattr]
    exact if_pos hcloses
  have hfeatures : attr.features =
      Vector.ofFn fun i ↦ BitVec.ofInt 64 (statistics f (init ++ [last]) i) := by
    apply Vector.ext
    intro i hi
    have hvalue := toInt_features hattr h ⟨i, hi⟩
    rw [Vector.getElem_ofFn, ← hvalue, BitVec.ofInt_toInt]
    rfl
  have hlabel := label_detect last.ktime net (pinned nn attr)
  have hpinned : (pinned nn attr).features = attr.features := rfl
  obtain ⟨htotalKept, hcountKept, hstartKept⟩ := times_detect net nn attr
  unfold Line.report reportOn
  rw [hlabel, hpinned, hfeatures]
  simp only [outputLine, htotalKept, hcountKept, hstartKept, hstart]
  rw [BitVec.toNat_udiv, htotal, hcount,
    BitVec.toNat_sub_of_le (BitVec.le_def.mpr hwithin.2.2.2.1)]

end

/-! ## Lines of one frame -/

section

variable {flowMap : FlowMap} {arrival : Arrival} {f : Flow}

/-- Only a recorded packet with FIN or RST can print something. -/
theorem lines_eq_nil (h : ∀ f attr, arrival.belongsTo f = true →
    arrival.frame.tcpHdr.closes = true → (arrival.update f flowMap).lookup f ≠ some attr) :
    arrival.lines flowMap = [] := by
  rcases exit_eq_pass_or_closes arrival.ktime arrival.nn arrival.frame flowMap with
    hpass | ⟨f, attr, hframe, hhost, hcloses, hattr⟩
  · have hprintk :
        (exec .xdpProg arrival.ktime arrival.nn arrival.frame flowMap).printk = none := by
      simp only [exec, xdpProg, Outcome.passed]
      repeat' split
      all_goals rfl
    unfold Arrival.lines Arrival.executions
    rw [receive_of_pass hpass]
    simp [printedLines, hprintk]
  · exact absurd hattr (h f attr (belongsTo_iff.mpr ⟨hframe, hhost⟩) hcloses)

/-- A recorded packet with FIN or RST prints the line of its detection, if a network is selected. -/
theorem lines_of_closes (hbelongs : arrival.belongsTo f = true)
    (hcloses : arrival.frame.tcpHdr.closes = true) {attr : FlowAttribute}
    (hattr : (arrival.update f flowMap).lookup f = some attr) :
    arrival.lines flowMap =
      (arrival.net.map fun net ↦
        outputLine arrival.ktime (detect net (pinned arrival.nn attr))).toList := by
  obtain ⟨hframe, hhost⟩ := belongsTo_iff.mp hbelongs
  unfold Arrival.lines Arrival.executions
  cases hnet : arrival.net with
  | some net =>
    exact printedLines_of_closes hframe hhost hcloses arrival.ktime arrival.nn hnet hattr
  | none =>
    have hupdated : (updateFlowAttribute flowMap f arrival.frame.tcpHdr
        arrival.frame.ipHdr.packetLength arrival.ktime).lookup f = some attr := hattr
    have hprog := exec_xdpProg_of_closes hframe hhost hcloses arrival.ktime arrival.nn hupdated
    have hidx : BpfMap.ArrayMap.lookup arrival.nn.nnParameters (pinned arrival.nn attr).nnIdx =
        none := hnet
    have hpass : entryStep f .xdpPreprocessing arrival.ktime arrival.nn arrival.frame
        (pinned arrival.nn attr) = .passed (pinned arrival.nn attr) := by
      simp only [entryStep, preprocessingBody, onNet, hidx]
    have hchain : entryChain loadedProgs arrival.ktime arrival.nn arrival.frame f 32
        .xdpPreprocessing (pinned arrival.nn attr) =
          [⟨.xdpPreprocessing, pinned arrival.nn attr, .passed (pinned arrival.nn attr)⟩] :=
      entryChain_of_pass 32 hpass rfl
    unfold receive maxTailCallCnt
    rw [runChain]
    simp only [hprog, EntryOutcome.inMap, next_loadedProgs.1]
    rw [runChain_eq_map_entryChain hframe loadedProgs arrival.ktime arrival.nn hupdated, hchain]
    rfl

end

/-! ## Refinement -/

/-- The abstract monitor after a run. -/
def monitorAfter (arrivals : List Arrival) : Monitor :=
  Interleaving.run Monitor.step Monitor.empty arrivals

theorem monitorAfter_concat (arrivals : List Arrival) (arrival : Arrival) :
    monitorAfter (arrivals ++ [arrival]) = (monitorAfter arrivals).step arrival :=
  Interleaving.run_concat _ _ _ _

/-- The abstract monitor follows the flows in the map, and keeps the packets that are recorded. -/
theorem monitorAfter_eq (arrivals : List Arrival) :
    monitorAfter arrivals =
      { followed := (mapAfter arrivals).keys
        packets := fun f ↦ recorded f arrivals } := by
  induction arrivals using List.reverseRecOn with
  | nil => rfl
  | append_singleton arrivals arrival ih =>
    rw [monitorAfter_concat, ih, mapAfter_concat]
    cases hflow : arrival.monitoredFlow with
    | none =>
      have hnone (f : Flow) : arrival.belongsTo f = false := monitoredFlow_eq_none hflow f
      have hrecords (f : Flow) : records f (mapAfter arrivals) arrival = false := by
        rw [records, hnone f, Bool.false_and]
      simp only [Monitor.step, hflow]
      rw [process_of_not_belongsTo hnone]
      congr 1
      funext f
      rw [recorded_concat, hrecords f]
      simp
    | some f =>
      have hbelongs := monitoredFlow_eq_some_iff.mp hflow
      have hother {other : Flow} (hne : other ≠ f) :
          records other (mapAfter arrivals) arrival = false := by
        have hnot : arrival.belongsTo other = false := by
          by_contra hmem
          have hsame := monitoredFlow_eq_some_iff.mpr (Bool.of_not_eq_false hmem)
          rw [hflow, Option.some.injEq] at hsame
          exact hne hsame.symm
        rw [records, hnot, Bool.false_and]
      have hfollows : Monitor.Follows ⟨(mapAfter arrivals).keys, fun f ↦ recorded f arrivals⟩ f ↔
          records f (mapAfter arrivals) arrival = true := (records_iff hbelongs).symm
      simp only [Monitor.step, hflow]
      by_cases hrecords : records f (mapAfter arrivals) arrival = true
      · rw [if_pos (hfollows.mpr hrecords), keys_process_of_records hrecords]
        congr 1
        funext other
        rw [recorded_concat]
        rcases eq_or_ne other f with rfl | hne
        · rw [Function.update_self, if_pos hrecords]
        · rw [Function.update_of_ne hne, hother hne]
          simp
      · rw [if_neg (mt hfollows.mp hrecords),
          process_of_not_records hbelongs (by simpa using hrecords)]
        congr 1
        funext other
        rw [recorded_concat]
        rcases eq_or_ne other f with rfl | hne
        · rw [if_neg hrecords, List.append_nil]
        · rw [hother hne]
          simp

namespace Monitor

variable {monitor : Monitor} {arrival : Arrival}

theorem report_of_follows {f : Flow} (hflow : arrival.monitoredFlow = some f)
    (hfollows : monitor.Follows f) (hcloses : arrival.frame.tcpHdr.closes = true) :
    monitor.report arrival =
      (arrival.net.map fun net ↦
        reportOn f (monitor.packets f ++ [arrival]) arrival net).toList := by
  unfold report
  rw [hflow]
  cases arrival.net with
  | none => rfl
  | some net => exact if_pos ⟨hfollows, hcloses⟩

theorem report_eq_nil (h : ∀ f, arrival.monitoredFlow = some f →
    ¬ (monitor.Follows f ∧ arrival.frame.tcpHdr.closes = true)) : monitor.report arrival = [] := by
  unfold report
  cases hflow : arrival.monitoredFlow with
  | none => rfl
  | some f =>
    cases arrival.net with
    | none => rfl
    | some net => exact if_neg (h f hflow)

end Monitor

/-- The reports that a frame causes when the programs process it. -/
def printedReports (flowMap : FlowMap) (arrival : Arrival) : List Report :=
  (arrival.lines flowMap).map Line.report

/-- One frame, after any history. -/
theorem printedReports_mapAfter {earlier : List Arrival} {arrival : Arrival}
    (hfew : (earlier ++ [arrival]).length < 2 ^ 57)
    (hlengths : WellFormedLengths (earlier ++ [arrival]))
    (hclock : SteadyReadings (earlier ++ [arrival])) :
    printedReports (mapAfter earlier) arrival = (monitorAfter earlier).report arrival := by
  rw [monitorAfter_eq]
  set monitor : Monitor := ⟨(mapAfter earlier).keys, fun f ↦ recorded f earlier⟩
  by_cases hreported : ∃ f, arrival.belongsTo f = true ∧ monitor.Follows f ∧
      arrival.frame.tcpHdr.closes = true
  · obtain ⟨f, hbelongs, hfollows, hcloses⟩ := hreported
    have hrecords := (records_iff hbelongs).mpr hfollows
    obtain ⟨after, hafter⟩ := Option.isSome_iff_exists.mp (Bool.and_eq_true_iff.mp hrecords).2
    rw [← mapAfter_concat] at hafter
    have hpackets : recorded f earlier ++ [arrival] =
        (earlier ++ [arrival]).filter (Arrival.belongsTo f) := by
      rw [← recorded_eq_filter hafter, recorded_concat, if_pos hrecords]
    have hattr : (arrival.update f (mapAfter earlier)).lookup f =
        some (arrival.record (((mapAfter earlier).lookup f).getD arrival.newEntry)) :=
      lookup_updateFlowAttribute_self hfollows _ _ _
    have hcore : ((process (mapAfter earlier) arrival).lookup f).map FlowAttribute.core =
        ((arrival.update f (mapAfter earlier)).lookup f).map FlowAttribute.core :=
      map_core_lookup_process hbelongs
    rw [← mapAfter_concat, map_core_lookup_mapAfter, recorded_concat, if_pos hrecords, hattr,
      Option.map_some] at hcore
    have haccepted : Accepted f (recorded f earlier ++ [arrival]) := by
      rw [hpackets]
      have hlength := List.length_filter_le (Arrival.belongsTo f) (earlier ++ [arrival])
      refine ⟨by omega, fun packet hpacket ↦ List.of_mem_filter hpacket, ?_,
        hclock.sublist List.filter_sublist⟩
      intro packet hpacket
      obtain ⟨hmem, hpacketFlow⟩ := List.mem_filter.mp hpacket
      have hsome := monitoredFlow_eq_some_iff.mpr hpacketFlow
      exact hlengths packet hmem (by rw [hsome]; rfl)
    have hreport (net : Net) := report_outputLine hcore haccepted hcloses arrival.nn net
    rw [printedReports, lines_of_closes hbelongs hcloses hattr,
      Monitor.report_of_follows (monitoredFlow_eq_some_iff.mpr hbelongs) hfollows hcloses,
      ← Option.toList_map, Option.map_map]
    congr 2
    funext net
    exact hreport net
  · have hquiet : ∀ f attr, arrival.belongsTo f = true → arrival.frame.tcpHdr.closes = true →
        (arrival.update f (mapAfter earlier)).lookup f ≠ some attr := by
      intro f attr hbelongs hcloses hattr
      apply hreported
      refine ⟨f, hbelongs, ?_, hcloses⟩
      by_contra hfull
      rw [update_of_full hfull] at hattr
      exact hfull (Or.inl (((mapAfter earlier).mem_keys_iff f).mpr ⟨attr, hattr⟩))
    have hnone : monitor.report arrival = [] := by
      apply Monitor.report_eq_nil
      intro f hflow hboth
      exact hreported ⟨f, monitoredFlow_eq_some_iff.mp hflow, hboth⟩
    rw [printedReports, lines_eq_nil hquiet, hnone, List.map_nil]

/-- The programs refine the abstract monitor: over every run of fewer than `2^57` frames whose
accepted packets are well formed, with a clock that never goes back, the printed lines are the
reports of the abstract monitor, in the same order and with the same numbers. -/
theorem printed_log_eq_monitor_log {arrivals : List Arrival} (hfew : arrivals.length < 2 ^ 57)
    (hlengths : WellFormedLengths arrivals) (hclock : SteadyReadings arrivals) :
    Interleaving.trace process printedReports BpfMap.HashMap.empty arrivals =
      Interleaving.trace Monitor.step Monitor.report Monitor.empty arrivals := by
  apply Interleaving.trace_congr
  intro earlier arrival later hsplit
  have hsub : (earlier ++ [arrival]).Sublist arrivals := by
    rw [hsplit]
    exact (List.Sublist.refl earlier).append (List.singleton_sublist.mpr (by simp))
  have hlength := hsub.length_le
  apply printedReports_mapAfter (by omega) _ (hclock.sublist hsub)
  intro packet hpacket
  exact hlengths packet (hsub.subset hpacket)

/-- A SYN and a FIN of one flow cause one report. -/
theorem printed_log_eq_monitor_log_hostFrame :
    let nn : NnMaps := ⟨#v[Net.zero, shippedNet], #v[1]⟩
    let arrivals : List Arrival := [⟨hostFrame 7 60 false, ⟨3, 4, 5, 5, 5⟩, nn⟩,
      ⟨hostFrame 7 40 true, ⟨9, 10, 12, 13, 14⟩, nn⟩]
    Interleaving.trace process printedReports BpfMap.HashMap.empty arrivals =
        Interleaving.trace Monitor.step Monitor.report Monitor.empty arrivals ∧
      (Interleaving.trace Monitor.step Monitor.report Monitor.empty arrivals).length = 1 := by
  intro nn arrivals
  have hlengths : ∀ arrival ∈ arrivals, 0 ≤ arrival.payloadLength := by
    simp only [arrivals, List.forall_mem_cons, List.not_mem_nil, false_implies, implies_true,
      Arrival.payloadLength]
    decide +kernel
  have hclock : SteadyReadings arrivals := by
    constructor
    · simp [arrivals]
    · simp [arrivals]
  refine ⟨printed_log_eq_monitor_log (by simp [arrivals])
    (fun arrival hmem _ ↦ hlengths arrival hmem) hclock, ?_⟩
  decide +kernel

end NNeBPF

import NNeBPF.Multicore.Serial
import NNeBPF.Xdp.Features
import NNeBPF.Xdp.PortReuse

/-!
# Statistics take effect at `xdp_prog`

The stages of a detection write the two buffers of an entry and nothing else.  So the turns in which
packets run `xdp_prog` decide what the statistics of all flows are: apart from the buffers and the
stored index, every interleaving leaves the map that sequential processing of the packets leaves, in
the order of these turns.  Detections under way, contents of the network maps and the CPUs that the
turns run on make no difference.

It follows how an entry moves between any two points of an interleaving: counts only grow, the
extremes only widen, and the port never changes.
-/

namespace NNeBPF

open Mlp

/-- Two maps with the same flows and, apart from buffers and indices, the same entries. -/
def SameCores (left right : FlowMap) : Prop :=
  ∀ f, (left.lookup f).map FlowAttribute.core = (right.lookup f).map FlowAttribute.core

theorem SameCores.keys_eq {left right : FlowMap} (h : SameCores left right) :
    left.keys = right.keys := by
  ext f
  have hsome := congrArg Option.isSome (h f)
  rw [Option.isSome_map, Option.isSome_map] at hsome
  rw [left.mem_keys, right.mem_keys, hsome]

section

variable {flowMap left right : FlowMap} {arrival : Arrival} {f : Flow}

/-- Recording a packet looks at the statistics only. -/
theorem map_core_lookup_update (h : SameCores left right) :
    ((arrival.update f left).lookup f).map FlowAttribute.core =
      ((arrival.update f right).lookup f).map FlowAttribute.core := by
  by_cases hroom : f ∈ left.keys ∨ left.keys.card < maxPacketReacord
  · have hother : f ∈ right.keys ∨ right.keys.card < maxPacketReacord := by rwa [← h.keys_eq]
    have hleft : (arrival.update f left).lookup f =
        some (arrival.record ((left.lookup f).getD arrival.newEntry)) :=
      lookup_updateFlowAttribute_self hroom _ _ _
    have hright : (arrival.update f right).lookup f =
        some (arrival.record ((right.lookup f).getD arrival.newEntry)) :=
      lookup_updateFlowAttribute_self hother _ _ _
    have hrecord (entry : Option FlowAttribute) :
        (arrival.record (entry.getD arrival.newEntry)).core =
          arrival.record ((entry.map FlowAttribute.core).getD arrival.newEntry) := by
      cases entry <;> rfl
    rw [hleft, hright, Option.map_some, Option.map_some, hrecord, hrecord, h f]
  · have hother : ¬ (f ∈ right.keys ∨ right.keys.card < maxPacketReacord) := by rwa [← h.keys_eq]
    rw [update_of_full hroom, update_of_full hother]
    exact h f

/-- `xdp_prog` alone leaves the statistics that the whole chain of the frame leaves. -/
theorem sameCores_xdpProg (arrival : Arrival) (h : SameCores left right) :
    SameCores (exec .xdpProg arrival.ktime arrival.nn arrival.frame left).flowMap
      (process right arrival) := by
  intro f
  cases hbelongs : arrival.belongsTo f with
  | true =>
    rw [map_core_lookup_xdpProg hbelongs, map_core_lookup_process hbelongs]
    exact map_core_lookup_update h
  | false =>
    have hleft : (exec .xdpProg arrival.ktime arrival.nn arrival.frame left).flowMap.lookup f =
        left.lookup f := by
      cases hframe : flowTuple arrival.frame with
      | none =>
        rw [exec_of_flowTuple_eq_none hframe]
        rfl
      | some other =>
        rcases eq_or_ne f other with rfl | hne
        · have hhost : f.monitored = false := by simpa [Arrival.belongsTo, hframe] using hbelongs
          have hprog := xdpProg_of_flowTuple_eq_some hframe arrival.ktime arrival.nn left
          simp only [hhost, Bool.false_eq_true, if_false] at hprog
          simp only [exec]
          rw [hprog]
          rfl
        · exact lookup_exec_of_ne hframe hne _ _ _ _
    rw [hleft, lookup_process_of_not_belongsTo hbelongs]
    exact h f

/-- The contents of the network maps make no difference to the statistics. -/
theorem sameCores_process (h : SameCores left right) (nn : NnMaps) :
    SameCores (process left arrival) (process right { arrival with nn := nn }) := by
  intro f
  cases hbelongs : arrival.belongsTo f with
  | true =>
    have hother : ({ arrival with nn := nn } : Arrival).belongsTo f = true := hbelongs
    rw [map_core_lookup_process hbelongs, map_core_lookup_process hother]
    exact map_core_lookup_update h
  | false =>
    have hother : ({ arrival with nn := nn } : Arrival).belongsTo f = false := hbelongs
    rw [lookup_process_of_not_belongsTo hbelongs, lookup_process_of_not_belongsTo hother]
    exact h f

theorem sameCores_run_of_nets (h : SameCores left right) (otherNn : Arrival → NnMaps)
    {arrivals : List Arrival} :
    SameCores (Interleaving.run process left arrivals) (Interleaving.run process right
      (arrivals.map fun arrival ↦ { arrival with nn := otherNn arrival })) := by
  induction arrivals generalizing left right with
  | nil => exact h
  | cons arrival arrivals ih => exact ih (sameCores_process h (otherNn arrival))

/-- A stage leaves the statistics of its entry. -/
theorem core_entryStep_of_stage {program : XdpProgram} {ktime : Ktime} {nn : NnMaps}
    {frame : Frame} {attr : FlowAttribute} (h : program ≠ .xdpProg) :
    (entryStep f program ktime nn frame attr).attr.core = attr.core := by
  cases program with
  | xdpProg => exact absurd rfl h
  | xdpPreprocessing => exact onNet_keeps FlowAttribute.core fun _ ↦ rfl
  | xdpInputLinear => exact onNet_keeps FlowAttribute.core fun _ ↦ rfl
  | xdpInputRelu => rfl
  | xdpHiddenLinear => exact onNet_keeps FlowAttribute.core fun _ ↦ rfl
  | xdpHiddenRelu => rfl
  | xdpOutputLinear => exact onNet_keeps FlowAttribute.core fun _ ↦ rfl

/-- A stage leaves the statistics of all flows, and it adds none. -/
theorem map_core_lookup_stage {program : XdpProgram} (hstage : program ≠ .xdpProg) (ktime : Ktime)
    (nn : NnMaps) (frame : Frame) :
    ((exec program ktime nn frame flowMap).flowMap.lookup f).map FlowAttribute.core =
      (flowMap.lookup f).map FlowAttribute.core := by
  cases hframe : flowTuple frame with
  | none =>
    rw [exec_of_flowTuple_eq_none hframe]
    rfl
  | some other =>
    rcases eq_or_ne f other with rfl | hne
    · cases hattr : flowMap.lookup f with
      | some attr =>
        rw [exec_of_lookup_eq_some hframe hattr, EntryOutcome.inMap]
        simp only [lookup_modify_const hattr, Option.map_some, core_entryStep_of_stage hstage]
      | none =>
        cases hafter : (exec program ktime nn frame flowMap).flowMap.lookup f with
        | none => rfl
        | some after =>
          rcases lookup_exec_cases hframe hafter with ⟨attr, hsome, -⟩ | ⟨hprogram, -, -⟩
          · rw [hattr] at hsome
            cases hsome
          · exact absurd hprogram hstage
    · rw [lookup_exec_of_ne hframe hne]

end

namespace Machine

/-- The packet of a turn, with what the turn sees. -/
def arrivalOf (frames : ℕ → Frame) (turn : Turn) : Arrival :=
  ⟨frames turn.packet, turn.ktime, turn.nn⟩

/-- The packet of a turn that runs `xdp_prog`. -/
def recording (frames : ℕ → Frame) (machine : Machine) (turn : Turn) : List Arrival :=
  if machine.next turn.packet = some .xdpProg then [arrivalOf frames turn] else []

section

variable (frames : ℕ → Frame) (machine : Machine) (turns : List Turn)

/-- The packets of a run in the order of the turns in which they run `xdp_prog`. -/
def recordings : List Arrival :=
  Interleaving.trace (step loadedProgs frames) (recording frames) machine turns

/-- Sequential processing follows an interleaving at the turns that run `xdp_prog`. -/
theorem simulation_recordings :
    Interleaving.Simulation (step loadedProgs frames) (fun _ _ ↦ ([] : List Unit)) process
      (fun _ _ ↦ []) (fun _ ↦ True) (fun machine flowMap ↦ SameCores machine.flowMap flowMap)
      (recording frames) where
  states := by
    intro machine flowMap turn _ hsame
    cases hnext : machine.next turn.packet with
    | none =>
      rw [step_of_next_eq_none loadedProgs hnext, recording, hnext]
      exact hsame
    | some program =>
      rw [step_of_next_eq_some loadedProgs hnext, recording, hnext]
      by_cases hprogram : program = .xdpProg
      · subst hprogram
        rw [if_pos rfl]
        exact sameCores_xdpProg (arrivalOf frames turn) hsame
      · rw [if_neg (by simpa using hprogram)]
        intro f
        exact (map_core_lookup_stage hprogram _ _ _).trans (hsame f)
  logs := by
    intro machine flowMap turn _ _
    rw [recording]
    split_ifs <;> rfl

theorem sameCores_run :
    SameCores (Interleaving.run (step loadedProgs frames) machine turns).flowMap
      (Interleaving.run process machine.flowMap (recordings frames machine turns)) :=
  (simulation_recordings frames).related_run (fun _ ↦ rfl) fun _ _ ↦ trivial

/-- The statistics are linearizable.  Every interleaving, from any state, leaves the flows and, but
for buffers and indices, the entries that sequential processing of the packets leaves in the order
of their `xdp_prog` turns, whatever network maps the packets see there. -/
theorem statistics_linearize (otherNn : Arrival → NnMaps) :
    let reached := (Interleaving.run (step loadedProgs frames) machine turns).flowMap
    let sequential := Interleaving.run process machine.flowMap
      ((recordings frames machine turns).map fun arrival ↦ { arrival with nn := otherNn arrival })
    reached.keys = sequential.keys ∧
      ∀ f, (reached.lookup f).map FlowAttribute.core =
        (sequential.lookup f).map FlowAttribute.core := by
  intro reached sequential
  have hsame : SameCores reached
      (Interleaving.run process machine.flowMap (recordings frames machine turns)) :=
    sameCores_run frames machine turns
  have hnets : SameCores
      (Interleaving.run process machine.flowMap (recordings frames machine turns)) sequential :=
    sameCores_run_of_nets (fun _ ↦ rfl) otherNn
  have hboth : SameCores reached sequential := fun f ↦ (hsame f).trans (hnets f)
  exact ⟨hboth.keys_eq, hboth⟩

end

end Machine

/-! ## How an entry grows -/

/-- What more packets make of an entry: counts are added, the extremes take the lengths in, and the
port and the status stay. -/
structure GrownBy (packets : List Arrival) (before after : FlowAttribute) : Prop where
  numPacket : after.numPacket = before.numPacket + BitVec.ofNat 64 packets.length
  headerLength : after.headerLength = before.headerLength + BitVec.ofNat 64 (headerTotal packets)
  maxPacketLength : IsGreatest (insert before.maxPacketLength.toNat (unsignedLengths packets))
    after.maxPacketLength.toNat
  minPacketLength : IsLeast (insert before.minPacketLength.toNat (unsignedLengths packets))
    after.minPacketLength.toNat
  maxDuration : before.maxDuration ≤ after.maxDuration
  lastPacketTime : after.lastPacketTime =
    (packets.getLast?.map fun packet ↦ packet.ktime.packetTime).getD before.lastPacketTime
  dstPort : after.dstPort = before.dstPort
  status : after.status = before.status

theorem GrownBy.refl (attr : FlowAttribute) : GrownBy [] attr attr where
  numPacket := (BitVec.add_zero _).symm
  headerLength := (BitVec.add_zero _).symm
  maxPacketLength := by simp [unsignedLengths]
  minPacketLength := by simp [unsignedLengths]
  maxDuration := BitVec.le_refl _
  lastPacketTime := rfl
  dstPort := rfl
  status := rfl

section

variable {packets : List Arrival} {before after : FlowAttribute}

/-- One more packet. -/
theorem GrownBy.record (h : GrownBy packets before after) (packet : Arrival) :
    GrownBy (packets ++ [packet]) before (packet.record after) where
  numPacket := by
    have hstep : (packet.record after).numPacket = after.numPacket + 1 := rfl
    rw [hstep, h.numPacket, List.length_append, List.length_singleton, BitVec.ofNat_add,
      BitVec.add_assoc]
    rfl
  headerLength := by
    have hstep : (packet.record after).headerLength =
        after.headerLength + packet.frame.tcpHdr.headerBytes := rfl
    rw [hstep, h.headerLength, headerTotal_concat, BitVec.ofNat_add, headerBytes_eq_ofNat,
      BitVec.add_assoc]
  maxPacketLength := by
    rw [toNat_maxPacketLength_record, unsignedLengths_concat, Set.insert_comm]
    exact h.maxPacketLength.insert _
  minPacketLength := by
    rw [toNat_minPacketLength_record, unsignedLengths_concat, Set.insert_comm]
    exact h.minPacketLength.insert _
  maxDuration := by
    have hstep : (packet.record after).maxDuration.toNat =
        max (after.duration packet.ktime).toNat after.maxDuration.toNat :=
      toNat_maxDuration_record packet after
    rw [BitVec.le_def, hstep]
    exact (BitVec.le_def.mp h.maxDuration).trans (le_max_right _ _)
  lastPacketTime := by
    rw [List.getLast?_concat]
    rfl
  dstPort := h.dstPort
  status := h.status

theorem grownBy_resume (old : FlowAttribute) (packets : List Arrival) :
    GrownBy packets old (resume old packets) := by
  induction packets using List.reverseRecOn with
  | nil => exact GrownBy.refl old
  | append_singleton packets packet ih =>
    rw [resume, List.foldl_concat]
    exact ih.record packet

/-- A known flow stays known in a sequential run, and all its packets are counted in its entry. -/
theorem lookup_run_of_lookup {flowMap : FlowMap} {f : Flow} (h : flowMap.lookup f = some before)
    (arrivals : List Arrival) :
    ∃ after, (Interleaving.run process flowMap arrivals).lookup f = some after ∧
      after.core = resume before.core (arrivals.filter (Arrival.belongsTo f)) := by
  induction arrivals generalizing flowMap before with
  | nil => exact ⟨before, h, rfl⟩
  | cons arrival arrivals ih =>
    cases hbelongs : arrival.belongsTo f with
    | true =>
      have hmem : f ∈ flowMap.keys := (flowMap.mem_keys_iff f).mpr ⟨before, h⟩
      have hrecords : records f flowMap arrival = true := (records_iff hbelongs).mpr (Or.inl hmem)
      obtain ⟨next, hnext, hcore⟩ := core_of_records hrecords
      rw [h, Option.getD_some] at hcore
      rw [List.filter_cons_of_pos hbelongs]
      have hlater := ih hnext
      rwa [hcore] at hlater
    | false =>
      rw [List.filter_cons_of_neg (by simp [hbelongs])]
      exact ih ((lookup_process_of_not_belongsTo hbelongs).trans h)

end

namespace Machine

/-- An entry is never removed or reset.  Between any two points of any interleaving it grows by the
packets of its flow that run `xdp_prog` in between, in this order, each of them exactly once.  The
extremes and the gap are compared as unsigned words, so as signed ones the maxima can fall. -/
theorem entry_grows (frames : ℕ → Frame) {machine : Machine} {f : Flow} {before : FlowAttribute}
    (h : machine.flowMap.lookup f = some before) (turns : List Turn) :
    ∃ after,
      (Interleaving.run (step loadedProgs frames) machine turns).flowMap.lookup f = some after ∧
        GrownBy ((recordings frames machine turns).filter (Arrival.belongsTo f)) before after := by
  obtain ⟨last, hlast, hcore⟩ := lookup_run_of_lookup h (recordings frames machine turns)
  have hsame := sameCores_run frames machine turns f
  rw [hlast, Option.map_some, Option.map_eq_some_iff] at hsame
  obtain ⟨after, hafter, heq⟩ := hsame
  refine ⟨after, hafter, ?_⟩
  have hgrown := grownBy_resume before.core
    ((recordings frames machine turns).filter (Arrival.belongsTo f))
  rw [← hcore, ← heq] at hgrown
  exact ⟨hgrown.numPacket, hgrown.headerLength, hgrown.maxPacketLength, hgrown.minPacketLength,
    hgrown.maxDuration, hgrown.lastPacketTime, hgrown.dstPort, hgrown.status⟩

/-- A second packet of a flow with one packet. -/
theorem entry_grows_hostFrame :
    let arrival : Arrival :=
      ⟨hostFrame 7 40 false, ⟨9, 9, 9, 9, 9⟩, ⟨#v[Net.zero, Net.zero], #v[1]⟩⟩
    let machine : Machine := waiting (process BpfMap.HashMap.empty arrival)
    let turns : List Turn := [ownTurn (fun _ ↦ arrival) 0]
    ∃ before after, machine.flowMap.lookup (hostFlow 7) = some before ∧
      (Interleaving.run (step loadedProgs fun _ ↦ arrival.frame) machine turns).flowMap.lookup
        (hostFlow 7) = some after ∧
      GrownBy ((recordings (fun _ ↦ arrival.frame) machine turns).filter
        (Arrival.belongsTo (hostFlow 7))) before after := by
  intro arrival machine turns
  have hsome : (machine.flowMap.lookup (hostFlow 7)).isSome := by decide +kernel
  obtain ⟨before, hbefore⟩ := Option.isSome_iff_exists.mp hsome
  obtain ⟨after, hafter, hgrown⟩ := entry_grows (fun _ ↦ arrival.frame) hbefore turns
  exact ⟨before, after, hbefore, hafter, hgrown⟩

end Machine

end NNeBPF

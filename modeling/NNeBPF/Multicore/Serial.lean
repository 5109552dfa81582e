import NNeBPF.Multicore.Stages
import NNeBPF.Xdp.Monitor

/-!
# One CPU for each flow

A network card that steers all packets of a flow to one CPU has the packets of each flow processed
one after another, while packets of different flows still run at the same time.  As long as the map
has room for all flows, such an interleaving is as good as a sequential run: it leaves the same map,
and the lines of every flow are the same in the same order.
-/

namespace NNeBPF

open Mlp

theorem finalMap_cons (flowMap : FlowMap) (first : Execution) (executions : List Execution) :
    finalMap flowMap (first :: executions) = finalMap first.outcome.flowMap executions := by
  cases executions with
  | nil => rfl
  | cons second executions =>
    unfold finalMap
    rw [List.getLast?_cons_cons]
    cases hlast : (second :: executions).getLast? with
    | none => simp at hlast
    | some last => rfl

/-- The limit on tail calls does not matter when it is large enough for the programs that are
left. -/
theorem runChain_eq_of_le {ktime : Ktime} {nn : NnMaps} {frame : Frame} {program : XdpProgram}
    {few many : ℕ} (hfew : program.onwards.length ≤ few + 1) (hle : few ≤ many)
    (flowMap : FlowMap) :
    runChain loadedProgs ktime nn frame many program flowMap =
      runChain loadedProgs ktime nn frame few program flowMap := by
  induction few generalizing program many flowMap with
  | zero =>
    have hlast : program.following = none := by
      rw [program.onwards_eq] at hfew
      cases hfollowing : program.following with
      | none => rfl
      | some next =>
        rw [hfollowing, Option.elim_some, next.onwards_eq] at hfew
        simp at hfew
    have hend : (exec program ktime nn frame flowMap).exit.next loadedProgs = none := by
      rcases next_exec_cases program ktime nn frame flowMap with hnone | hfollowing
      · exact hnone
      · rw [hfollowing, hlast]
    cases many with
    | zero => rfl
    | succ many => simp only [runChain, hend]
  | succ few ih =>
    obtain ⟨many, rfl⟩ : ∃ rest, many = rest + 1 := ⟨many - 1, by omega⟩
    simp only [runChain]
    cases hnext : (exec program ktime nn frame flowMap).exit.next loadedProgs with
    | none => rfl
    | some next =>
      have hfollowing : program.following = some next := by
        rcases next_exec_cases program ktime nn frame flowMap with hnone | hfollowing
        · rw [hnext] at hnone
          cases hnone
        · rw [← hfollowing, hnext]
      rw [program.onwards_eq, hfollowing, Option.elim_some, List.length_cons] at hfew
      exact congrArg (List.cons _) (ih (by omega) (by omega) _)

/-! ## Room for all flows -/

/-- On two maps with the same entry of the frame's flow, where the flow is known or finds room, a
program does the same to this entry, ends in the same way and prints the same. -/
theorem exec_congr {frame : Frame} {f : Flow} (hframe : flowTuple frame = some f)
    {left right : FlowMap} (hentry : left.lookup f = right.lookup f)
    (hroom : f.monitored = true → ∀ flowMap ∈ [left, right],
      f ∈ flowMap.keys ∨ flowMap.keys.card < maxPacketReacord)
    (program : XdpProgram) (ktime : Ktime) (nn : NnMaps) :
    (exec program ktime nn frame left).flowMap.lookup f =
        (exec program ktime nn frame right).flowMap.lookup f ∧
      (exec program ktime nn frame left).exit = (exec program ktime nn frame right).exit ∧
      (exec program ktime nn frame left).printk = (exec program ktime nn frame right).printk := by
  cases hleft : left.lookup f with
  | some attr =>
    have hright : right.lookup f = some attr := by rw [← hentry, hleft]
    rw [exec_of_lookup_eq_some hframe hleft, exec_of_lookup_eq_some hframe hright]
    refine ⟨?_, rfl, rfl⟩
    exact (lookup_modify_const hleft _).trans (lookup_modify_const hright _).symm
  | none =>
    have hright : right.lookup f = none := by rw [← hentry, hleft]
    have hstage (body : FlowAttribute → EntryOutcome) :
        onEntry frame left body = .passed left ∧ onEntry frame right body = .passed right := by
      simp only [onEntry, hframe, hleft, hright, and_self]
    have hpassed {leftOutcome rightOutcome : Outcome}
        (h : leftOutcome = .passed left ∧ rightOutcome = .passed right) :
        leftOutcome.flowMap.lookup f = rightOutcome.flowMap.lookup f ∧
          leftOutcome.exit = rightOutcome.exit ∧ leftOutcome.printk = rightOutcome.printk := by
      rw [h.1, h.2]
      exact ⟨hentry, rfl, rfl⟩
    cases program with
    | xdpProg =>
      simp only [exec]
      rw [xdpProg_of_flowTuple_eq_some hframe, xdpProg_of_flowTuple_eq_some hframe]
      cases hhost : f.monitored with
      | false => exact ⟨hentry, rfl, rfl⟩
      | true =>
        -- Both maps get the same new entry.
        have hnew (flowMap : FlowMap) (hmem : flowMap ∈ [left, right]) :=
          lookup_updateFlowAttribute_self (hroom hhost flowMap hmem) frame.tcpHdr
            frame.ipHdr.packetLength ktime
        have hnewLeft := hnew left (by simp)
        have hnewRight := hnew right (by simp)
        rw [hleft] at hnewLeft
        rw [hright] at hnewRight
        cases frame.tcpHdr.closes with
        | false =>
          simp only [if_true, Bool.false_eq_true, if_false, Outcome.passed]
          exact ⟨hnewLeft.trans hnewRight.symm, trivial, trivial⟩
        | true =>
          simp only [if_true, hnewLeft, hnewRight, BpfMap.HashMap.lookup_modify_self,
            Option.map_some, and_self]
    | xdpPreprocessing => exact hpassed (hstage _)
    | xdpInputLinear => exact hpassed (hstage _)
    | xdpInputRelu => exact hpassed (hstage _)
    | xdpHiddenLinear => exact hpassed (hstage _)
    | xdpHiddenRelu => exact hpassed (hstage _)
    | xdpOutputLinear => exact hpassed (hstage _)

/-- A program adds no flow but the one of its frame, and this only if it is monitored. -/
theorem keys_exec_subset {frame : Frame} {flowMap : FlowMap} {flows : Finset Flow}
    (hkeys : flowMap.keys ⊆ flows)
    (hframe : ∀ f, flowTuple frame = some f → f.monitored = true → f ∈ flows)
    (program : XdpProgram) (ktime : Ktime) (nn : NnMaps) :
    (exec program ktime nn frame flowMap).flowMap.keys ⊆ flows := by
  intro other hother
  obtain ⟨after, hafter⟩ := (BpfMap.HashMap.mem_keys_iff _ other).mp hother
  cases hflow : flowTuple frame with
  | none =>
    rw [exec_of_flowTuple_eq_none hflow] at hother
    exact hkeys hother
  | some f =>
    rcases eq_or_ne other f with rfl | hne
    · rcases lookup_exec_cases hflow hafter with ⟨attr, hattr, -⟩ | ⟨-, hhost, -⟩
      · exact hkeys ((flowMap.mem_keys_iff other).mpr ⟨attr, hattr⟩)
      · exact hframe other hflow hhost
    · rw [lookup_exec_of_ne hflow hne] at hafter
      exact hkeys ((flowMap.mem_keys_iff other).mpr ⟨after, hafter⟩)

/-- While all flows together fit into the map, each of them is known or finds room. -/
theorem room_of_subset {flowMap : FlowMap} {flows : Finset Flow} (hkeys : flowMap.keys ⊆ flows)
    (hcard : flows.card ≤ maxPacketReacord) {f : Flow} (hf : f ∈ flows) :
    f ∈ flowMap.keys ∨ flowMap.keys.card < maxPacketReacord := by
  by_cases hmem : f ∈ flowMap.keys
  · exact Or.inl hmem
  · have hless : flowMap.keys ⊂ flows :=
      (Finset.ssubset_iff_of_subset hkeys).mpr ⟨f, hf, hmem⟩
    exact Or.inr (lt_of_lt_of_le (Finset.card_lt_card hless) hcard)

namespace Machine

/-! ## The turns of one packet in a row -/

/-- What a turn prints. -/
def turnLines (frames : ℕ → Frame) (machine : Machine) (turn : Turn) : List Line :=
  ((machine.outcome frames turn).bind Outcome.printk).toList

section

variable {progs : ProgArray} {frames : ℕ → Frame} {machine : Machine} {turn : Turn}

theorem turnLines_of_next_eq_none (hnext : machine.next turn.packet = none) :
    turnLines frames machine turn = [] := by
  simp only [turnLines, outcome, hnext, Option.map_none, Option.bind_none, Option.toList_none]

theorem turnLines_of_next_eq_some {program : XdpProgram}
    (hnext : machine.next turn.packet = some program) :
    turnLines frames machine turn =
      (exec program turn.ktime turn.nn (frames turn.packet) machine.flowMap).printk.toList := by
  rw [turnLines, outcome_of_next_eq_some hnext, Option.bind_some]

/-- A finished packet does nothing more. -/
theorem replicate_of_next_eq_none (hnext : machine.next turn.packet = none) (count : ℕ) :
    Interleaving.run (step progs frames) machine (List.replicate count turn) = machine ∧
      Interleaving.trace (step progs frames) (turnLines frames) machine
        (List.replicate count turn) = [] := by
  induction count with
  | zero => exact ⟨rfl, rfl⟩
  | succ count ih =>
    rw [List.replicate_succ, Interleaving.run_cons, Interleaving.trace_cons,
      step_of_next_eq_none progs hnext, turnLines_of_next_eq_none hnext]
    exact ih

/-- Turns of one packet in a row are the chain of its programs, cut off at the number of turns. -/
theorem replicate_eq_runChain {program : XdpProgram}
    (hnext : machine.next turn.packet = some program) (calls : ℕ) :
    let chain := runChain progs turn.ktime turn.nn (frames turn.packet) calls program
      machine.flowMap
    (Interleaving.run (step progs frames) machine (List.replicate (calls + 1) turn)).flowMap =
        finalMap machine.flowMap chain ∧
      Interleaving.trace (step progs frames) (turnLines frames) machine
        (List.replicate (calls + 1) turn) = printedLines chain := by
  induction calls generalizing machine program with
  | zero =>
    simp only [List.replicate_succ, List.replicate_zero, Interleaving.run_cons,
      Interleaving.run_nil, Interleaving.trace_cons, Interleaving.trace_nil, List.append_nil,
      runChain]
    rw [step_of_next_eq_some progs hnext, turnLines_of_next_eq_some hnext]
    refine ⟨rfl, ?_⟩
    unfold printedLines
    cases hprintk :
      (exec program turn.ktime turn.nn (frames turn.packet) machine.flowMap).printk <;>
        simp [hprintk]
  | succ calls ih =>
    set outcome := exec program turn.ktime turn.nn (frames turn.packet) machine.flowMap
      with houtcome
    have hstep : machine.step progs frames turn =
        ⟨outcome.flowMap, Function.update machine.next turn.packet (outcome.exit.next progs)⟩ :=
      step_of_next_eq_some progs hnext
    have hself : (machine.step progs frames turn).next turn.packet = outcome.exit.next progs := by
      rw [hstep]
      exact Function.update_self _ _ _
    have hmap : (machine.step progs frames turn).flowMap = outcome.flowMap := by rw [hstep]
    rw [List.replicate_succ, Interleaving.run_cons, Interleaving.trace_cons,
      turnLines_of_next_eq_some hnext, ← houtcome]
    simp only [runChain, ← houtcome]
    rw [finalMap_cons]
    have hlines (executions : List Execution) :
        printedLines (⟨program, machine.flowMap, outcome⟩ :: executions) =
          outcome.printk.toList ++ printedLines executions := by
      unfold printedLines
      cases hprintk : outcome.printk <;> simp [hprintk]
    rw [hlines]
    cases hafter : outcome.exit.next progs with
    | none =>
      rw [hafter] at hself
      have hidle : Interleaving.run (step progs frames) (machine.step progs frames turn)
            (List.replicate (calls + 1) turn) = machine.step progs frames turn ∧
          Interleaving.trace (step progs frames) (turnLines frames)
            (machine.step progs frames turn) (List.replicate (calls + 1) turn) = [] :=
        replicate_of_next_eq_none hself (calls + 1)
      rw [hidle.1, hidle.2, hmap]
      exact ⟨rfl, rfl⟩
    | some next =>
      rw [hafter] at hself
      obtain ⟨hrun, htrace⟩ := ih hself
      rw [hmap] at hrun htrace
      rw [hrun, htrace]
      exact ⟨rfl, rfl⟩

/-- Turns of one packet leave the next programs of all others. -/
theorem next_replicate_of_ne {packet : ℕ} (hne : packet ≠ turn.packet) (count : ℕ) :
    (Interleaving.run (step progs frames) machine (List.replicate count turn)).next packet =
      machine.next packet := by
  induction count generalizing machine with
  | zero => rfl
  | succ count ih =>
    rw [List.replicate_succ, Interleaving.run_cons, ih, next_step_of_ne progs hne]

end

/-! ## Packets one after another -/

section

variable (arrivals : ℕ → Arrival)

/-- The frames of numbered packets. -/
def framesOf : ℕ → Frame := fun packet ↦ (arrivals packet).frame

/-- A turn of a packet, with the clock readings and the network maps that the packet sees. -/
def ownTurn (packet : ℕ) : Turn := ⟨packet, (arrivals packet).ktime, (arrivals packet).nn⟩

/-- The packet is an accepted one of the flow `f`. -/
def isOf (f : Flow) (packet : ℕ) : Bool := flowTuple (arrivals packet).frame == some f

/-- All packets are about to run `xdp_prog`. -/
def waiting (flowMap : FlowMap) : Machine := ⟨flowMap, fun _ ↦ some .xdpProg⟩

/-- What a turn prints for the flow `f`. -/
def flowLines (f : Flow) (machine : Machine) (turn : Turn) : List Line :=
  if ofFlow (framesOf arrivals) f turn then turnLines (framesOf arrivals) machine turn else []

/-- Every packet of the list takes all its turns before the next one takes its first. -/
def inBlocks (turns : ℕ → ℕ) (packets : List ℕ) : List ℕ :=
  packets.flatMap fun packet ↦ List.replicate (turns packet) packet

end

section

variable {arrivals : ℕ → Arrival} {f : Flow}

theorem ofFlow_ownTurn (packet : ℕ) :
    ofFlow (framesOf arrivals) f (ownTurn arrivals packet) = isOf arrivals f packet := rfl

/-- Seven turns in a row are everything that a packet runs. -/
theorem replicate_eq_process {machine : Machine} {packet count : ℕ}
    (hnext : machine.next packet = some .xdpProg) (hcount : 7 ≤ count) :
    (Interleaving.run (step loadedProgs (framesOf arrivals)) machine
        (List.replicate count (ownTurn arrivals packet))).flowMap =
          process machine.flowMap (arrivals packet) ∧
      Interleaving.trace (step loadedProgs (framesOf arrivals)) (turnLines (framesOf arrivals))
        machine (List.replicate count (ownTurn arrivals packet)) =
          (arrivals packet).lines machine.flowMap := by
  obtain ⟨calls, rfl⟩ : ∃ calls, count = calls + 1 := ⟨count - 1, by omega⟩
  have hseven : XdpProgram.xdpProg.onwards.length ≤ 6 + 1 := by decide
  have hfull : receive loadedProgs (arrivals packet).ktime (arrivals packet).nn
      (arrivals packet).frame machine.flowMap =
        runChain loadedProgs (arrivals packet).ktime (arrivals packet).nn (arrivals packet).frame
          calls .xdpProg machine.flowMap := by
    have hlimit : (6 : ℕ) ≤ maxTailCallCnt := by decide
    have hcalls : 6 ≤ calls := by omega
    unfold receive
    rw [runChain_eq_of_le hseven hlimit, runChain_eq_of_le hseven hcalls]
  have hown : machine.next (ownTurn arrivals packet).packet = some .xdpProg := hnext
  unfold process Arrival.lines Arrival.executions
  rw [hfull]
  exact replicate_eq_runChain hown calls

/-- The turns of a packet print for its own flow only. -/
theorem trace_flowLines_replicate (machine : Machine) (packet count : ℕ) :
    Interleaving.trace (step loadedProgs (framesOf arrivals)) (flowLines arrivals f) machine
        (List.replicate count (ownTurn arrivals packet)) =
      if isOf arrivals f packet then
        Interleaving.trace (step loadedProgs (framesOf arrivals)) (turnLines (framesOf arrivals))
          machine (List.replicate count (ownTurn arrivals packet))
      else [] := by
  induction count generalizing machine with
  | zero => simp
  | succ count ih =>
    rw [List.replicate_succ, Interleaving.trace_cons, Interleaving.trace_cons, ih, flowLines,
      ofFlow_ownTurn]
    split_ifs <;> rfl

/-- The sequential counterpart of `flowLines`. -/
def linesFor (f : Flow) (flowMap : FlowMap) (arrival : Arrival) : List Line :=
  if flowTuple arrival.frame == some f then arrival.lines flowMap else []

/-- Packets in blocks are a sequential run. -/
theorem run_inBlocks {turns : ℕ → ℕ} (hturns : ∀ packet, 7 ≤ turns packet) {packets : List ℕ}
    (hnodup : packets.Nodup) {machine : Machine}
    (hnext : ∀ packet ∈ packets, machine.next packet = some .xdpProg) :
    (Interleaving.run (step loadedProgs (framesOf arrivals)) machine
        ((inBlocks turns packets).map (ownTurn arrivals))).flowMap =
          Interleaving.run process machine.flowMap (packets.map arrivals) ∧
      Interleaving.trace (step loadedProgs (framesOf arrivals)) (flowLines arrivals f) machine
        ((inBlocks turns packets).map (ownTurn arrivals)) =
          Interleaving.trace process (linesFor f) machine.flowMap (packets.map arrivals) := by
  induction packets generalizing machine with
  | nil => exact ⟨rfl, rfl⟩
  | cons packet packets ih =>
    obtain ⟨hnew, hrest⟩ := List.nodup_cons.mp hnodup
    have hblock : (inBlocks turns (packet :: packets)).map (ownTurn arrivals) =
        List.replicate (turns packet) (ownTurn arrivals packet) ++
          (inBlocks turns packets).map (ownTurn arrivals) := by
      simp only [inBlocks, List.flatMap_cons, List.map_append, List.map_replicate]
    set after := Interleaving.run (step loadedProgs (framesOf arrivals)) machine
      (List.replicate (turns packet) (ownTurn arrivals packet)) with hafter
    have hprocess : after.flowMap = process machine.flowMap (arrivals packet) ∧
        Interleaving.trace (step loadedProgs (framesOf arrivals)) (turnLines (framesOf arrivals))
          machine (List.replicate (turns packet) (ownTurn arrivals packet)) =
            (arrivals packet).lines machine.flowMap :=
      replicate_eq_process (hnext packet List.mem_cons_self) (hturns packet)
    obtain ⟨hmap, hlines⟩ := hprocess
    have hwaiting : ∀ other ∈ packets, after.next other = some .xdpProg := by
      intro other hother
      have hne : other ≠ packet := by
        rintro rfl
        exact hnew hother
      rw [hafter, next_replicate_of_ne hne]
      exact hnext other (List.mem_cons_of_mem _ hother)
    have hown : Interleaving.trace (step loadedProgs (framesOf arrivals)) (flowLines arrivals f)
        machine (List.replicate (turns packet) (ownTurn arrivals packet)) =
          linesFor f machine.flowMap (arrivals packet) := by
      rw [trace_flowLines_replicate, hlines]
      rfl
    obtain ⟨hlaterMap, hlaterLines⟩ := ih hrest hwaiting
    rw [hmap] at hlaterMap hlaterLines
    rw [hblock, Interleaving.run_append, Interleaving.trace_append, ← hafter, hlaterMap,
      hlaterLines, hown]
    exact ⟨rfl, rfl⟩

end

/-! ## One flow -/

/-- Two machines that look the same from the flow `f`, with room for all flows. -/
structure SameFor (arrivals : ℕ → Arrival) (flows : Finset Flow) (f : Flow)
    (left right : Machine) : Prop where
  entry : left.flowMap.lookup f = right.flowMap.lookup f
  next : ∀ packet, isOf arrivals f packet = true → left.next packet = right.next packet
  leftKeys : left.flowMap.keys ⊆ flows
  rightKeys : right.flowMap.keys ⊆ flows

/-- The flow of the turn's frame has its place among `flows`. -/
def Placed (arrivals : ℕ → Arrival) (flows : Finset Flow) (turn : Turn) : Prop :=
  ∀ f, flowTuple (arrivals turn.packet).frame = some f → f.monitored = true → f ∈ flows

section

variable {arrivals : ℕ → Arrival} {flows : Finset Flow} {f : Flow} {left right : Machine}
  {turn : Turn}

theorem keys_step_subset (hkeys : left.flowMap.keys ⊆ flows)
    (hplaced : Placed arrivals flows turn) :
    (left.step loadedProgs (framesOf arrivals) turn).flowMap.keys ⊆ flows := by
  cases hnext : left.next turn.packet with
  | none =>
    rw [step_of_next_eq_none loadedProgs hnext]
    exact hkeys
  | some program =>
    rw [step_of_next_eq_some loadedProgs hnext]
    exact keys_exec_subset hkeys hplaced program turn.ktime turn.nn

/-- A turn of `f` on both sides. -/
theorem sameFor_step_both (hcard : flows.card ≤ maxPacketReacord)
    (hplaced : Placed arrivals flows turn) (hown : ofFlow (framesOf arrivals) f turn = true)
    (h : SameFor arrivals flows f left right) :
    SameFor arrivals flows f (left.step loadedProgs (framesOf arrivals) turn)
        (right.step loadedProgs (framesOf arrivals) turn) ∧
      turnLines (framesOf arrivals) left turn = turnLines (framesOf arrivals) right turn := by
  have hframe : flowTuple (framesOf arrivals turn.packet) = some f := by simpa [ofFlow] using hown
  have hnext := h.next turn.packet hown
  have hleftKeys := keys_step_subset h.leftKeys hplaced
  have hrightKeys := keys_step_subset h.rightKeys hplaced
  cases hprogram : left.next turn.packet with
  | none =>
    rw [hprogram] at hnext
    rw [step_of_next_eq_none loadedProgs hprogram, step_of_next_eq_none loadedProgs hnext.symm,
      turnLines_of_next_eq_none hprogram, turnLines_of_next_eq_none hnext.symm]
    exact ⟨h, rfl⟩
  | some program =>
    rw [hprogram] at hnext
    have hroom : f.monitored = true → ∀ flowMap ∈ [left.flowMap, right.flowMap],
        f ∈ flowMap.keys ∨ flowMap.keys.card < maxPacketReacord := by
      intro hhost flowMap hmem
      have hkeys : flowMap.keys ⊆ flows := by
        rcases List.mem_pair.mp hmem with rfl | rfl
        · exact h.leftKeys
        · exact h.rightKeys
      exact room_of_subset hkeys hcard (hplaced f hframe hhost)
    obtain ⟨hentry, hexit, hprintk⟩ := exec_congr hframe h.entry hroom program turn.ktime turn.nn
    rw [turnLines_of_next_eq_some hprogram, turnLines_of_next_eq_some hnext.symm, hprintk]
    refine ⟨⟨?_, ?_, hleftKeys, hrightKeys⟩, rfl⟩
    · rw [step_of_next_eq_some loadedProgs hprogram, step_of_next_eq_some loadedProgs hnext.symm]
      exact hentry
    · intro packet hpacket
      rcases eq_or_ne packet turn.packet with rfl | hne
      · rw [step_of_next_eq_some loadedProgs hprogram, step_of_next_eq_some loadedProgs hnext.symm]
        simp only [Function.update_self]
        rw [hexit]
      · rw [next_step_of_ne loadedProgs hne, next_step_of_ne loadedProgs hne]
        exact h.next packet hpacket

/-- A turn of another flow on one side. -/
theorem sameFor_step_left (hplaced : Placed arrivals flows turn)
    (hforeign : ofFlow (framesOf arrivals) f turn = false)
    (h : SameFor arrivals flows f left right) :
    SameFor arrivals flows f (left.step loadedProgs (framesOf arrivals) turn) right := by
  refine ⟨?_, ?_, keys_step_subset h.leftKeys hplaced, h.rightKeys⟩
  · rw [lookup_step_of_not_ofFlow loadedProgs hforeign]
    exact h.entry
  · intro packet hpacket
    have hne : packet ≠ turn.packet := by
      rintro rfl
      exact absurd (hpacket.symm.trans hforeign) (by decide)
    rw [next_step_of_ne loadedProgs hne]
    exact h.next packet hpacket

/-- For `f` a run is as good as the run of its own turns. -/
theorem simulation_ownTurns (hcard : flows.card ≤ maxPacketReacord) :
    Interleaving.Simulation (step loadedProgs (framesOf arrivals)) (flowLines arrivals f)
      (step loadedProgs (framesOf arrivals)) (flowLines arrivals f) (Placed arrivals flows)
      (SameFor arrivals flows f)
      (fun _ turn ↦ if ofFlow (framesOf arrivals) f turn then [turn] else []) where
  states := by
    intro left right turn hplaced hsame
    cases hown : ofFlow (framesOf arrivals) f turn with
    | true => exact (sameFor_step_both hcard hplaced hown hsame).1
    | false => exact sameFor_step_left hplaced hown hsame
  logs := by
    intro left right turn hplaced hsame
    cases hown : ofFlow (framesOf arrivals) f turn with
    | true =>
      have hlines := (sameFor_step_both hcard hplaced hown hsame).2
      simp [flowLines, hown, hlines]
    | false => simp [flowLines, hown]

/-- What a run does for `f` depends on the turns of `f` only. -/
theorem run_congr_ownTurns (hcard : flows.card ≤ maxPacketReacord) {flowMap : FlowMap}
    (hkeys : flowMap.keys ⊆ flows) {first second : List Turn}
    (hfirst : ∀ turn ∈ first, Placed arrivals flows turn)
    (hsecond : ∀ turn ∈ second, Placed arrivals flows turn)
    (hsame : first.filter (ofFlow (framesOf arrivals) f) =
      second.filter (ofFlow (framesOf arrivals) f)) :
    (Interleaving.run (step loadedProgs (framesOf arrivals)) (waiting flowMap) first).flowMap.lookup
          f =
        (Interleaving.run (step loadedProgs (framesOf arrivals)) (waiting flowMap)
          second).flowMap.lookup f ∧
      Interleaving.trace (step loadedProgs (framesOf arrivals)) (flowLines arrivals f)
          (waiting flowMap) first =
        Interleaving.trace (step loadedProgs (framesOf arrivals)) (flowLines arrivals f)
          (waiting flowMap) second := by
  have hrefl : SameFor arrivals flows f (waiting flowMap) (waiting flowMap) :=
    ⟨rfl, fun _ _ ↦ rfl, hkeys, hkeys⟩
  have hsimulation := @simulation_ownTurns arrivals flows f hcard
  have hfirstRun := (hsimulation.related_run hrefl hfirst).entry
  have hsecondRun := (hsimulation.related_run hrefl hsecond).entry
  have hfirstTrace := hsimulation.trace_eq hrefl hfirst
  have hsecondTrace := hsimulation.trace_eq hrefl hsecond
  rw [Interleaving.trace_chosen] at hfirstRun hsecondRun hfirstTrace hsecondTrace
  rw [hfirstRun, hsecondRun, hfirstTrace, hsecondTrace, hsame]
  exact ⟨rfl, rfl⟩

end

/-! ## Serializability -/

/-- In the schedule the packets of each flow take their turns one after another, each to its end and
in the order of the list. -/
def FlowsInOrder (arrivals : ℕ → Arrival) (turns : ℕ → ℕ) (order schedule : List ℕ) : Prop :=
  ∀ f, schedule.filter (isOf arrivals f) = inBlocks turns (order.filter (isOf arrivals f))

section

variable {arrivals : ℕ → Arrival} {turns : ℕ → ℕ} {order schedule : List ℕ}

theorem filter_inBlocks (f : Flow) (packets : List ℕ) :
    (inBlocks turns packets).filter (isOf arrivals f) =
      inBlocks turns (packets.filter (isOf arrivals f)) := by
  induction packets with
  | nil => rfl
  | cons packet packets ih =>
    unfold inBlocks at ih ⊢
    rw [List.flatMap_cons, List.filter_append, List.filter_replicate, ih, List.filter_cons]
    split_ifs <;> rfl

theorem mem_of_mem_inBlocks {packet : ℕ} (h : packet ∈ inBlocks turns order) : packet ∈ order := by
  obtain ⟨other, hother, hmem⟩ := List.mem_flatMap.mp h
  rw [List.eq_of_mem_replicate hmem]
  exact hother

/-- Interleavings that keep the packets of each flow one after another are serializable.  With room
for all flows, such an interleaving leaves the map of the sequential run in any order that agrees
with it on each flow, and every flow has the same lines printed in the same order. -/
theorem serializable {flows : Finset Flow} (hcard : flows.card ≤ maxPacketReacord)
    {flowMap : FlowMap} (hkeys : flowMap.keys ⊆ flows)
    (hflows : ∀ packet ∈ order, ∀ f, (arrivals packet).belongsTo f = true → f ∈ flows)
    (hturns : ∀ packet, 7 ≤ turns packet) (hnodup : order.Nodup)
    (horder : FlowsInOrder arrivals turns order schedule) :
    (Interleaving.run (step loadedProgs (framesOf arrivals)) (waiting flowMap)
        (schedule.map (ownTurn arrivals))).flowMap =
          Interleaving.run process flowMap (order.map arrivals) ∧
      ∀ f, Interleaving.trace (step loadedProgs (framesOf arrivals)) (flowLines arrivals f)
        (waiting flowMap) (schedule.map (ownTurn arrivals)) =
          Interleaving.trace process (linesFor f) flowMap (order.map arrivals) := by
  have hplaced {packet : ℕ} (hmem : packet ∈ order) :
      Placed arrivals flows (ownTurn arrivals packet) :=
    fun f hframe hhost ↦ hflows packet hmem f (belongsTo_iff.mpr ⟨hframe, hhost⟩)
  have hblocks : ∀ turn ∈ (inBlocks turns order).map (ownTurn arrivals),
      Placed arrivals flows turn := by
    intro turn hturn
    obtain ⟨packet, hpacket, rfl⟩ := List.mem_map.mp hturn
    exact hplaced (mem_of_mem_inBlocks hpacket)
  have hschedule : ∀ turn ∈ schedule.map (ownTurn arrivals), Placed arrivals flows turn := by
    intro turn hturn f hframe
    obtain ⟨packet, hpacket, rfl⟩ := List.mem_map.mp hturn
    have hown : isOf arrivals f packet = true := beq_iff_eq.mpr hframe
    have hmem : packet ∈ schedule.filter (isOf arrivals f) := List.mem_filter.mpr ⟨hpacket, hown⟩
    rw [horder f] at hmem
    exact hplaced (List.mem_of_mem_filter (mem_of_mem_inBlocks hmem)) f hframe
  have hsame (f : Flow) :
      (schedule.map (ownTurn arrivals)).filter (ofFlow (framesOf arrivals) f) =
        ((inBlocks turns order).map (ownTurn arrivals)).filter (ofFlow (framesOf arrivals) f) := by
    have hcomp : ofFlow (framesOf arrivals) f ∘ ownTurn arrivals = isOf arrivals f := rfl
    rw [List.filter_map, List.filter_map, hcomp, horder f, filter_inBlocks]
  have hwaiting : ∀ packet ∈ order, (waiting flowMap).next packet = some .xdpProg :=
    fun _ _ ↦ rfl
  have hserial (f : Flow) := @run_inBlocks arrivals f turns hturns order hnodup _ hwaiting
  have hflow (f : Flow) := run_congr_ownTurns hcard hkeys hschedule hblocks (hsame f)
  constructor
  · apply BpfMap.HashMap.ext_lookup
    intro f
    rw [(hflow f).1, (hserial f).1]
    rfl
  · intro f
    rw [(hflow f).2, (hserial f).2]
    rfl

end

/-- Two packets of one flow, with a packet of another flow between the turns of the first one. -/
theorem serializable_hostFrame :
    let arrivals : ℕ → Arrival := fun packet ↦
      ⟨hostFrame (if packet = 1 then 9 else 7) 40 true, ⟨9, 9, 9, 9, 9⟩,
        ⟨#v[Net.zero, shippedNet], #v[1]⟩⟩
    (Interleaving.run (step loadedProgs (framesOf arrivals)) (waiting BpfMap.HashMap.empty)
        ((List.replicate 3 0 ++ List.replicate 7 1 ++ List.replicate 4 0 ++
          List.replicate 7 2).map (ownTurn arrivals))).flowMap =
      Interleaving.run process BpfMap.HashMap.empty ([0, 1, 2].map arrivals) := by
  intro arrivals
  have hflow (packet : ℕ) : flowTuple (arrivals packet).frame =
      some (hostFlow (if packet = 1 then 9 else 7)) := flowTuple_hostFrame _ _ _
  have hflows : ∀ packet ∈ [0, 1, 2], ∀ f, (arrivals packet).belongsTo f = true →
      f ∈ ({hostFlow 7, hostFlow 9} : Finset Flow) := by
    intro packet _ f hbelongs
    have hframe := (belongsTo_iff.mp hbelongs).1
    rw [hflow, Option.some.injEq] at hframe
    rw [← hframe]
    split_ifs <;> simp
  have horder : FlowsInOrder arrivals (fun _ ↦ 7) [0, 1, 2]
      (List.replicate 3 0 ++ List.replicate 7 1 ++ List.replicate 4 0 ++ List.replicate 7 2) := by
    intro f
    have hisOf (packet : ℕ) : isOf arrivals f packet =
        decide (hostFlow (if packet = 1 then 9 else 7) = f) := by
      rw [isOf, hflow]
      simp [beq_eq_decide]
    by_cases hseven : hostFlow 7#16 = f
    · have hnine : hostFlow 9#16 ≠ f := by
        rw [← hseven]
        decide
      simp [hisOf, hseven, hnine, inBlocks]
    · by_cases hnine : hostFlow 9#16 = f
      · simp [hisOf, hseven, hnine, inBlocks]
      · simp [hisOf, hseven, hnine, inBlocks]
  have hcard : ({hostFlow 7, hostFlow 9} : Finset Flow).card ≤ maxPacketReacord := by decide
  exact (serializable hcard (Finset.empty_subset _) hflows (fun _ ↦ le_rfl) (by decide) horder).1

end Machine

end NNeBPF

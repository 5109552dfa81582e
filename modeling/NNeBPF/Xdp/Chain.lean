import NNeBPF.Xdp.Programs

/-!
# Tail-call chains

A received frame starts `xdp_prog`; a tail call that finds its slot of `progs` filled replaces the
running program by the one in the slot, up to the kernel's limit on successive tail calls.  The
chain is kept as the list of the executions that it consists of.

If the map holds an entry for the frame's flow, the chain is the chain on this entry alone.
-/

namespace NNeBPF

/-- `progs`, the `BPF_MAP_TYPE_PROG_ARRAY` with 1024 slots. -/
abbrev ProgArray := BpfMap.ArrayMap (Option XdpProgram) 1024

/-- The program that `bpf_tail_call(ctx, &progs, index)` jumps to, if there is one. -/
def tailCallTarget (progs : ProgArray) (index : S32) : Option XdpProgram :=
  (BpfMap.ArrayMap.lookup progs index).join

/-- What runs after a program that ended in this way. -/
def Exit.next (progs : ProgArray) : Exit → Option XdpProgram
  | .pass => none
  | .tailCall index => tailCallTarget progs index

/-- `MAX_TAIL_CALL_CNT`. -/
def maxTailCallCnt : ℕ := 33

/-- One program execution of a chain: the map it started on and its outcome. -/
structure Execution where
  program : XdpProgram
  start : FlowMap
  outcome : Outcome

section

variable (progs : ProgArray) (ktime : Ktime) (nn : NnMaps) (frame : Frame)

/-- The executions from `program` on, with `calls` tail calls left. -/
def runChain : ℕ → XdpProgram → FlowMap → List Execution
  | 0, program, flowMap => [⟨program, flowMap, exec program ktime nn frame flowMap⟩]
  | calls + 1, program, flowMap =>
    let outcome := exec program ktime nn frame flowMap
    ⟨program, flowMap, outcome⟩ ::
      match outcome.exit.next progs with
      | none => []
      | some next => runChain calls next outcome.flowMap

/-- Everything that one received frame runs. -/
def receive (flowMap : FlowMap) : List Execution :=
  runChain progs ktime nn frame maxTailCallCnt .xdpProg flowMap

end

/-- The map after the last execution. -/
def finalMap (flowMap : FlowMap) (executions : List Execution) : FlowMap :=
  (executions.getLast?.map fun execution ↦ execution.outcome.flowMap).getD flowMap

/-- The lines that the executions print. -/
def printedLines (executions : List Execution) : List Line :=
  executions.filterMap fun execution ↦ execution.outcome.printk

/-! ## Chains on one entry -/

/-- One program execution, seen from the entry of the frame's flow. -/
structure EntryExecution where
  program : XdpProgram
  start : FlowAttribute
  outcome : EntryOutcome

/-- The executions from `program` on, seen from the entry of the flow `f` of the frame. -/
def entryChain (progs : ProgArray) (ktime : Ktime) (nn : NnMaps) (frame : Frame) (f : Flow) :
    ℕ → XdpProgram → FlowAttribute → List EntryExecution
  | 0, program, attr => [⟨program, attr, entryStep f program ktime nn frame attr⟩]
  | calls + 1, program, attr =>
    let outcome := entryStep f program ktime nn frame attr
    ⟨program, attr, outcome⟩ ::
      match outcome.exit.next progs with
      | none => []
      | some next => entryChain progs ktime nn frame f calls next outcome.attr

section

variable {progs : ProgArray} {ktime : Ktime} {nn : NnMaps} {frame : Frame} {f : Flow}
  {program : XdpProgram} {attr : FlowAttribute} {outcome : EntryOutcome}

/-- A tail call into a filled slot continues the chain there. -/
theorem entryChain_succ_of_next {next : XdpProgram} (calls : ℕ)
    (hstep : entryStep f program ktime nn frame attr = outcome)
    (hnext : outcome.exit.next progs = some next) :
    entryChain progs ktime nn frame f (calls + 1) program attr =
      ⟨program, attr, outcome⟩ :: entryChain progs ktime nn frame f calls next outcome.attr := by
  rw [entryChain]
  simp only [hstep, hnext]

/-- `XDP_PASS` ends the chain. -/
theorem entryChain_of_pass (calls : ℕ)
    (hstep : entryStep f program ktime nn frame attr = outcome) (hpass : outcome.exit = .pass) :
    entryChain progs ktime nn frame f calls program attr = [⟨program, attr, outcome⟩] := by
  cases calls with
  | zero => rw [entryChain, hstep]
  | succ calls =>
    rw [entryChain]
    simp only [hstep, hpass, Exit.next]

end

/-- An execution on the entry of `f`, put back into a map. -/
def EntryExecution.inMap (execution : EntryExecution) (flowMap : FlowMap) (f : Flow) :
    Execution where
  program := execution.program
  start := flowMap.modify f fun _ ↦ execution.start
  outcome := execution.outcome.inMap flowMap f

theorem EntryOutcome.inMap_modify (outcome : EntryOutcome) (flowMap : FlowMap) (f : Flow)
    (attr : FlowAttribute) :
    outcome.inMap (flowMap.modify f fun _ ↦ attr) f = outcome.inMap flowMap f := by
  unfold EntryOutcome.inMap
  rw [BpfMap.HashMap.modify_modify]
  rfl

theorem lookup_modify_const {flowMap : FlowMap} {f : Flow} {old : FlowAttribute}
    (hold : flowMap.lookup f = some old) (attr : FlowAttribute) :
    (flowMap.modify f fun _ ↦ attr).lookup f = some attr := by
  rw [BpfMap.HashMap.lookup_modify_self, hold]
  rfl

/-- The chain of an accepted frame on a map that holds its entry is the chain on the entry. -/
theorem runChain_eq_map_entryChain {frame : Frame} {f : Flow} (hframe : flowTuple frame = some f)
    (progs : ProgArray) (ktime : Ktime) (nn : NnMaps) {flowMap : FlowMap} {old : FlowAttribute}
    (hold : flowMap.lookup f = some old) (calls : ℕ) (program : XdpProgram)
    (attr : FlowAttribute) :
    runChain progs ktime nn frame calls program (flowMap.modify f fun _ ↦ attr) =
      (entryChain progs ktime nn frame f calls program attr).map
        fun execution ↦ execution.inMap flowMap f := by
  have hexec (program : XdpProgram) (attr : FlowAttribute) :
      exec program ktime nn frame (flowMap.modify f fun _ ↦ attr) =
        (entryStep f program ktime nn frame attr).inMap flowMap f := by
    rw [exec_of_lookup_eq_some hframe (lookup_modify_const hold attr),
      EntryOutcome.inMap_modify]
  induction calls generalizing program attr with
  | zero =>
    simp only [runChain, entryChain, hexec]
    rfl
  | succ calls ih =>
    simp only [runChain, entryChain, hexec, List.map_cons]
    have hexit : ((entryStep f program ktime nn frame attr).inMap flowMap f).exit =
        (entryStep f program ktime nn frame attr).exit := rfl
    rw [hexit]
    cases (entryStep f program ktime nn frame attr).exit.next progs with
    | none => rfl
    | some next =>
      have hrest := ih next (entryStep f program ktime nn frame attr).attr
      exact congrArg (List.cons _) hrest

end NNeBPF

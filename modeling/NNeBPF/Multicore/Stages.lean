import NNeBPF.Control.Detection
import NNeBPF.Library.Simulation

/-!
# What the turns of one packet can do

Any number of packets are under way on several CPUs, from any contents of the flow map, and the two
network maps may hold anything and change from turn to turn.  Whatever the interleaving, a packet
executes the programs in their one order, each of them once at most, and may stop after any of them.
Only an accepted FIN or RST of the monitored host gets past `xdp_prog`, and a packet that prints has
gone through all stages and prints one line.
-/

namespace NNeBPF

open Mlp

/-- All programs, in the order in which one packet can execute them. -/
def allPrograms : List XdpProgram := .xdpProg :: detectionStages

/-- The programs from one program on. -/
def XdpProgram.onwards (program : XdpProgram) : List XdpProgram :=
  allPrograms.dropWhile fun other ↦ other != program

theorem XdpProgram.onwards_eq (program : XdpProgram) :
    program.onwards = program :: program.following.elim [] onwards := by
  cases program <;> decide

/-- Only the last stage prints. -/
theorem eq_xdpOutputLinear_of_printk {program : XdpProgram} {ktime : Ktime} {nn : NnMaps}
    {frame : Frame} {flowMap : FlowMap} {line : Line}
    (hprintk : (exec program ktime nn frame flowMap).printk = some line) :
    program = .xdpOutputLinear := by
  have hentry (body : FlowAttribute → EntryOutcome) (hbody : ∀ attr, (body attr).printk = none) :
      (onEntry frame flowMap body).printk = none := by
    unfold onEntry
    split
    · rfl
    · split
      · rfl
      · exact hbody _
  have hnet (attr : FlowAttribute) (body : Net → EntryOutcome)
      (hbody : ∀ net, (body net).printk = none) : (onNet nn attr body).printk = none := by
    unfold onNet
    split
    · rfl
    · exact hbody _
  have hsilent (hnone : (exec program ktime nn frame flowMap).printk = none) :
      program = .xdpOutputLinear := by
    rw [hnone] at hprintk
    cases hprintk
  cases program with
  | xdpProg =>
    apply hsilent
    simp only [exec, xdpProg, Outcome.passed]
    repeat' split
    all_goals rfl
  | xdpPreprocessing => exact hsilent (hentry _ fun attr ↦ hnet attr _ fun _ ↦ rfl)
  | xdpInputLinear => exact hsilent (hentry _ fun attr ↦ hnet attr _ fun _ ↦ rfl)
  | xdpInputRelu => exact hsilent (hentry _ fun _ ↦ rfl)
  | xdpHiddenLinear => exact hsilent (hentry _ fun attr ↦ hnet attr _ fun _ ↦ rfl)
  | xdpHiddenRelu => exact hsilent (hentry _ fun _ ↦ rfl)
  | xdpOutputLinear => rfl

namespace Machine

/-- What a turn executes and prints, if it is one of the packet. -/
def executedBy (frames : ℕ → Frame) (packet : ℕ) (machine : Machine) (turn : Turn) :
    List (XdpProgram × Option Line) :=
  if turn.packet = packet then
    (machine.next packet).toList.map fun program ↦
      (program, (machine.outcome frames turn).bind Outcome.printk)
  else []

section

variable {frames : ℕ → Frame} {packet : ℕ} {machine : Machine} {turn : Turn}

theorem executedBy_of_ne (hne : turn.packet ≠ packet) :
    executedBy frames packet machine turn = [] := if_neg hne

theorem executedBy_of_next_eq_none (hnext : machine.next packet = none) :
    executedBy frames packet machine turn = [] := by
  simp [executedBy, hnext]

theorem executedBy_of_next_eq_some {program : XdpProgram} (hown : turn.packet = packet)
    (hnext : machine.next packet = some program) :
    executedBy frames packet machine turn =
      [(program, (exec program turn.ktime turn.nn (frames packet) machine.flowMap).printk)] := by
  subst hown
  rw [executedBy, if_pos rfl, hnext, outcome_of_next_eq_some hnext]
  rfl

/-- A packet goes on with the following program or stops. -/
theorem next_step_self {program : XdpProgram} (hown : turn.packet = packet)
    (hnext : machine.next packet = some program) :
    (machine.step loadedProgs frames turn).next packet = none ∨
      (machine.step loadedProgs frames turn).next packet = program.following := by
  subst hown
  rw [step_of_next_eq_some loadedProgs hnext]
  simp only [Function.update_self]
  exact next_exec_cases program turn.ktime turn.nn (frames turn.packet) machine.flowMap

end

section

variable (frames : ℕ → Frame) (packet : ℕ) (machine : Machine) (turns : List Turn)

/-- Everything that the packet executes and prints in a run. -/
def executed : List (XdpProgram × Option Line) :=
  Interleaving.trace (step loadedProgs frames) (executedBy frames packet) machine turns

/-- From any point on the packet executes a beginning of the programs that are left to it. -/
theorem programs_executed_prefix :
    (executed frames packet machine turns).map Prod.fst <+:
      (machine.next packet).elim [] XdpProgram.onwards := by
  induction turns generalizing machine with
  | nil => exact List.nil_prefix
  | cons turn turns ih =>
    have hrest := ih (machine.step loadedProgs frames turn)
    unfold executed at hrest ⊢
    rw [Interleaving.trace_cons]
    by_cases hown : turn.packet = packet
    · cases hnext : machine.next packet with
      | none =>
        rw [step_of_next_eq_none loadedProgs (hown ▸ hnext)] at hrest ⊢
        rw [executedBy_of_next_eq_none hnext, List.nil_append]
        rw [hnext] at hrest
        exact hrest
      | some program =>
        rw [executedBy_of_next_eq_some hown hnext, List.singleton_append, List.map_cons,
          Option.elim_some, program.onwards_eq]
        apply List.cons_prefix_cons.mpr
        refine ⟨rfl, hrest.trans ?_⟩
        rcases next_step_self hown hnext with hend | hfollowing
        · rw [hend]
          exact List.nil_prefix
        · rw [hfollowing]
    · rw [executedBy_of_ne hown, List.nil_append, ← next_step_of_ne loadedProgs (Ne.symm hown)]
      exact hrest

/-- A line comes from the last stage. -/
theorem program_of_mem_executed {program : XdpProgram} {line : Line}
    (hmem : (program, some line) ∈ executed frames packet machine turns) :
    program = .xdpOutputLinear := by
  induction turns generalizing machine with
  | nil => cases hmem
  | cons turn turns ih =>
    unfold executed at ih hmem
    rw [Interleaving.trace_cons, List.mem_append] at hmem
    rcases hmem with hfirst | hlater
    · by_cases hown : turn.packet = packet
      · cases hnext : machine.next packet with
        | none =>
          rw [executedBy_of_next_eq_none hnext] at hfirst
          cases hfirst
        | some own =>
          rw [executedBy_of_next_eq_some hown hnext, List.mem_singleton, Prod.mk.injEq] at hfirst
          rw [hfirst.1]
          exact eq_xdpOutputLinear_of_printk hfirst.2.symm
      · rw [executedBy_of_ne hown] at hfirst
        cases hfirst
    · exact ih _ hlater

theorem executed_of_next_eq_none (hnext : machine.next packet = none) :
    executed frames packet machine turns = [] := by
  have hbegin := programs_executed_prefix frames packet machine turns
  rw [hnext, Option.elim_none, List.prefix_nil, List.map_eq_nil_iff] at hbegin
  exact hbegin

/-- A packet that gets past `xdp_prog` closes a connection of the monitored host. -/
theorem closes_of_second_program (hnext : machine.next packet = some .xdpProg)
    (hsecond : 2 ≤ (executed frames packet machine turns).length) :
    ∃ f, flowTuple (frames packet) = some f ∧ f.monitored = true ∧
      (frames packet).tcpHdr.closes = true := by
  induction turns generalizing machine with
  | nil => cases hsecond
  | cons turn turns ih =>
    by_cases hown : turn.packet = packet
    · subst hown
      rcases exit_eq_pass_or_closes turn.ktime turn.nn (frames turn.packet) machine.flowMap with
        hpass | ⟨f, attr, hframe, hhost, hcloses, -⟩
      · -- `xdp_prog` has passed the frame on, and the packet is finished.
        have hend : (machine.step loadedProgs frames turn).next turn.packet = none := by
          rw [step_of_next_eq_some loadedProgs hnext]
          simp only [Function.update_self]
          rw [hpass]
          rfl
        have hrest := executed_of_next_eq_none frames turn.packet _ turns hend
        unfold executed at hsecond hrest
        rw [Interleaving.trace_cons, hrest, executedBy_of_next_eq_some rfl hnext] at hsecond
        simp at hsecond
      · exact ⟨f, hframe, hhost, hcloses⟩
    · apply ih (machine.step loadedProgs frames turn)
      · rw [next_step_of_ne loadedProgs (Ne.symm hown)]
        exact hnext
      · unfold executed at hsecond ⊢
        rw [Interleaving.trace_cons, executedBy_of_ne hown, List.nil_append] at hsecond
        exact hsecond

end

/-- The lines that steps print are no more than the steps of the program that prints. -/
theorem length_filterMap_snd_le {program : XdpProgram} {steps : List (XdpProgram × Option Line)}
    (h : ∀ other line, (other, some line) ∈ steps → other = program) :
    (steps.filterMap Prod.snd).length ≤ (steps.map Prod.fst).count program := by
  induction steps with
  | nil => exact le_rfl
  | cons step steps ih =>
    have hrest := ih fun other line hmem ↦ h other line (List.mem_cons_of_mem _ hmem)
    obtain ⟨own, printk⟩ := step
    cases printk with
    | none =>
      rw [List.filterMap_cons_none rfl, List.map_cons]
      exact hrest.trans (List.count_le_count_cons)
    | some line =>
      have hown : own = program := h own line List.mem_cons_self
      have hcons : ((own, some line) :: steps).filterMap Prod.snd =
          line :: steps.filterMap Prod.snd := List.filterMap_cons_some rfl
      rw [hcons, List.length_cons, List.map_cons, hown, List.count_cons_self]
      exact Nat.succ_le_succ hrest

/-- No detection is made up and none is repeated.  Whatever the other packets do, whatever the
network maps hold at each turn and whatever the entries contain, a packet executes a beginning of
the seven programs, each once; it prints at most one line, and only after all seven; and if it gets
past the first one its frame is an accepted FIN or RST of the monitored host. -/
theorem executed_at_most_once (frames : ℕ → Frame) {packet : ℕ} {machine : Machine}
    (hnext : machine.next packet = some .xdpProg) (turns : List Turn) :
    let seen := executed frames packet machine turns
    seen.map Prod.fst <+: allPrograms ∧ (seen.filterMap Prod.snd).length ≤ 1 ∧
      (seen.filterMap Prod.snd ≠ [] → seen.map Prod.fst = allPrograms) ∧
      (2 ≤ seen.length → ∃ f, flowTuple (frames packet) = some f ∧ f.monitored = true ∧
        (frames packet).tcpHdr.closes = true) := by
  intro seen
  have hbegin : seen.map Prod.fst <+: allPrograms := by
    have honwards := programs_executed_prefix frames packet machine turns
    rw [hnext] at honwards
    exact honwards
  have hprinter : ∀ program line, (program, some line) ∈ seen → program = .xdpOutputLinear :=
    fun _ _ hmem ↦ program_of_mem_executed frames packet machine turns hmem
  refine ⟨hbegin, ?_, ?_, closes_of_second_program frames packet machine turns hnext⟩
  · calc
      (seen.filterMap Prod.snd).length ≤ (seen.map Prod.fst).count .xdpOutputLinear :=
        length_filterMap_snd_le hprinter
      _ ≤ allPrograms.count .xdpOutputLinear := hbegin.sublist.count_le _
      _ = 1 := by decide
  · intro hprinted
    obtain ⟨line, hline⟩ := List.exists_mem_of_ne_nil _ hprinted
    obtain ⟨⟨program, printk⟩, hmem, hprintk⟩ := List.mem_filterMap.mp hline
    have hsome : printk = some line := hprintk
    subst hsome
    have hlast : .xdpOutputLinear ∈ seen.map Prod.fst := by
      rw [← hprinter program line hmem]
      exact List.mem_map_of_mem hmem
    have hinit : allPrograms = allPrograms.dropLast ++ [.xdpOutputLinear] := by decide
    rw [hinit] at hbegin ⊢
    apply (List.prefix_concat_iff.mp hbegin).resolve_right
    intro hshort
    exact absurd (hshort.subset hlast) (by decide)

/-- Two closing packets of one flow at the same time, with no network installed. -/
theorem executed_at_most_once_hostFrame :
    let frames : ℕ → Frame := fun _ ↦ hostFrame 7 40 true
    let machine : Machine := ⟨BpfMap.HashMap.empty, fun _ ↦ some .xdpProg⟩
    let turns : List Turn := [0, 1, 0, 0, 1, 1, 0, 0, 1, 0, 0, 0].map fun packet ↦
      ⟨packet, ⟨9, 9, 9, 9, 9⟩, NnMaps.zero⟩
    let seen := executed frames 0 machine turns
    seen.map Prod.fst <+: allPrograms ∧ (seen.filterMap Prod.snd).length ≤ 1 := by
  intro frames machine turns seen
  have hnext : machine.next 0 = some .xdpProg := rfl
  have h := executed_at_most_once frames hnext turns
  exact ⟨h.1, h.2.1⟩

end Machine

end NNeBPF

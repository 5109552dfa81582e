import NNeBPF.Library.Interleaving
import NNeBPF.Xdp.Pipeline

/-!
# Programs on several CPUs

Packets are numbered, and each packet has a next program to run: `xdp_prog` when it arrives, then
whatever its tail calls lead to.  One turn runs the next program of one packet as one atomic step,
with the clock readings and the contents of the two network maps that this step sees.  All packets
share `flow_map`; an interleaving is any list of turns.

The flow of a packet sees nothing of the turns of other flows, as long as it has an entry.
-/

namespace NNeBPF

/-- The shared map, and for each packet the program that it runs next. -/
structure Machine where
  flowMap : FlowMap
  next : ℕ → Option XdpProgram

/-- One atomic step: a packet runs its next program. -/
structure Turn where
  packet : ℕ
  ktime : Ktime
  nn : NnMaps

/-- What the owner of a flow can see of one of its turns. -/
structure FlowObservation where
  packet : ℕ
  program : Option XdpProgram
  entry : Option FlowAttribute
  printk : Option Line

open Mlp

namespace Machine

/-- The execution that a turn amounts to; a finished packet runs nothing. -/
def outcome (frames : ℕ → Frame) (machine : Machine) (turn : Turn) : Option Outcome :=
  (machine.next turn.packet).map fun program ↦
    exec program turn.ktime turn.nn (frames turn.packet) machine.flowMap

def step (progs : ProgArray) (frames : ℕ → Frame) (machine : Machine) (turn : Turn) : Machine :=
  match machine.outcome frames turn with
  | none => machine
  | some outcome =>
    { flowMap := outcome.flowMap
      next := Function.update machine.next turn.packet (outcome.exit.next progs) }

/-- The turn belongs to an accepted frame of the flow `f`. -/
def ofFlow (frames : ℕ → Frame) (f : Flow) (turn : Turn) : Bool :=
  flowTuple (frames turn.packet) == some f

def observe (progs : ProgArray) (frames : ℕ → Frame) (f : Flow) (machine : Machine) (turn : Turn) :
    FlowObservation where
  packet := turn.packet
  program := machine.next turn.packet
  entry := (machine.step progs frames turn).flowMap.lookup f
  printk := (machine.outcome frames turn).bind Outcome.printk

section

variable (progs : ProgArray) {frames : ℕ → Frame} {machine : Machine} {turn : Turn}

theorem step_of_next_eq_none (hnext : machine.next turn.packet = none) :
    machine.step progs frames turn = machine := by
  simp only [step, outcome, hnext, Option.map_none]

theorem outcome_of_next_eq_some {program : XdpProgram}
    (hnext : machine.next turn.packet = some program) :
    machine.outcome frames turn =
      some (exec program turn.ktime turn.nn (frames turn.packet) machine.flowMap) := by
  simp only [outcome, hnext, Option.map_some]

theorem step_of_next_eq_some {program : XdpProgram}
    (hnext : machine.next turn.packet = some program) :
    machine.step progs frames turn =
      { flowMap := (exec program turn.ktime turn.nn (frames turn.packet) machine.flowMap).flowMap
        next := Function.update machine.next turn.packet
          ((exec program turn.ktime turn.nn (frames turn.packet) machine.flowMap).exit.next
            progs) } := by
  simp only [step, outcome_of_next_eq_some hnext]

/-- A turn changes the next program of its own packet only. -/
theorem next_step_of_ne {packet : ℕ} (hne : packet ≠ turn.packet) :
    (machine.step progs frames turn).next packet = machine.next packet := by
  cases hnext : machine.next turn.packet with
  | none => rw [step_of_next_eq_none progs hnext]
  | some program =>
    rw [step_of_next_eq_some progs hnext]
    exact Function.update_of_ne hne _ _

/-- A turn of another flow, or of a frame that is not accepted, leaves the entry of `f` alone. -/
theorem lookup_step_of_not_ofFlow {f : Flow} (hforeign : ofFlow frames f turn = false) :
    (machine.step progs frames turn).flowMap.lookup f = machine.flowMap.lookup f := by
  cases hnext : machine.next turn.packet with
  | none => rw [step_of_next_eq_none progs hnext]
  | some program =>
    rw [step_of_next_eq_some progs hnext]
    cases hframe : flowTuple (frames turn.packet) with
    | none => rw [exec_of_flowTuple_eq_none hframe]; rfl
    | some other =>
      have hne : f ≠ other := by
        intro heq
        subst heq
        simp [ofFlow, hframe] at hforeign
      exact lookup_exec_of_ne hframe hne program turn.ktime turn.nn machine.flowMap

/-- A turn of `f` acts on the entry of `f` as `entryStep` does. -/
theorem lookup_step_of_ofFlow {f : Flow} {program : XdpProgram} {attr : FlowAttribute}
    (hframe : flowTuple (frames turn.packet) = some f)
    (hnext : machine.next turn.packet = some program)
    (hattr : machine.flowMap.lookup f = some attr) :
    (machine.step progs frames turn).flowMap.lookup f =
        some (entryStep f program turn.ktime turn.nn (frames turn.packet) attr).attr ∧
      (machine.step progs frames turn).next turn.packet =
        (entryStep f program turn.ktime turn.nn (frames turn.packet) attr).exit.next progs := by
  rw [step_of_next_eq_some progs hnext, exec_of_lookup_eq_some hframe hattr]
  constructor
  · exact lookup_modify_const hattr _
  · exact Function.update_self _ _ _

/-- An entry stays, whatever happens. -/
theorem isSome_lookup_step {f : Flow} (hentry : (machine.flowMap.lookup f).isSome) :
    ((machine.step progs frames turn).flowMap.lookup f).isSome := by
  cases hown : ofFlow frames f turn with
  | false => rw [lookup_step_of_not_ofFlow progs hown]; exact hentry
  | true =>
    have hframe : flowTuple (frames turn.packet) = some f := by simpa [ofFlow] using hown
    obtain ⟨attr, hattr⟩ := Option.isSome_iff_exists.mp hentry
    cases hnext : machine.next turn.packet with
    | none => rw [step_of_next_eq_none progs hnext]; exact hentry
    | some program => rw [(lookup_step_of_ofFlow progs hframe hnext hattr).1]; rfl

end

/-! ## What a flow sees -/

/-- Two machines that look the same from the flow `f`: the same entry, and the same next programs of
its packets. -/
structure AgreeOn (frames : ℕ → Frame) (f : Flow) (left right : Machine) : Prop where
  entry : left.flowMap.lookup f = right.flowMap.lookup f
  isSome : (left.flowMap.lookup f).isSome
  next : ∀ packet, flowTuple (frames packet) = some f → left.next packet = right.next packet

section

variable (progs : ProgArray) {frames : ℕ → Frame} {f : Flow}

theorem agreeOn_refl {machine : Machine} (hentry : (machine.flowMap.lookup f).isSome) :
    AgreeOn frames f machine machine :=
  ⟨rfl, hentry, fun _ _ ↦ rfl⟩

/-- Machines that agree on `f` take a turn of `f` with the same effect on `f`. -/
theorem agreeOn_step {left right : Machine} (turn : Turn) (hown : ofFlow frames f turn = true)
    (h : AgreeOn frames f left right) :
    AgreeOn frames f (left.step progs frames turn) (right.step progs frames turn) := by
  have hframe : flowTuple (frames turn.packet) = some f := by simpa [ofFlow] using hown
  have hnext := h.next turn.packet hframe
  obtain ⟨attr, hleft⟩ := Option.isSome_iff_exists.mp h.isSome
  have hright : right.flowMap.lookup f = some attr := by rw [← h.entry, hleft]
  cases hprogram : left.next turn.packet with
  | none =>
    rw [step_of_next_eq_none progs hprogram, step_of_next_eq_none progs (hnext ▸ hprogram)]
    exact h
  | some program =>
    have hl := lookup_step_of_ofFlow progs hframe hprogram hleft
    have hr := lookup_step_of_ofFlow progs hframe (hnext ▸ hprogram) hright
    refine ⟨hl.1.trans hr.1.symm, isSome_lookup_step progs h.isSome, ?_⟩
    intro packet hpacket
    rcases eq_or_ne packet turn.packet with rfl | hne
    · exact hl.2.trans hr.2.symm
    · rw [next_step_of_ne progs hne, next_step_of_ne progs hne]
      exact h.next packet hpacket

/-- A turn of another flow on one side keeps the agreement. -/
theorem agreeOn_step_left {left right : Machine} (turn : Turn)
    (hforeign : ofFlow frames f turn = false) (h : AgreeOn frames f left right) :
    AgreeOn frames f (left.step progs frames turn) right := by
  have hentry : (left.step progs frames turn).flowMap.lookup f = left.flowMap.lookup f :=
    lookup_step_of_not_ofFlow progs hforeign
  refine ⟨hentry.trans h.entry, ?_, ?_⟩
  · rw [hentry]
    exact h.isSome
  · intro packet hpacket
    have hne : packet ≠ turn.packet := by
      intro heq
      subst heq
      simp [ofFlow, hpacket] at hforeign
    rw [next_step_of_ne progs hne]
    exact h.next packet hpacket

/-- Machines that agree on `f` show the same in a turn of `f`. -/
theorem observe_eq_of_agreeOn {left right : Machine} (turn : Turn)
    (hown : ofFlow frames f turn = true) (h : AgreeOn frames f left right) :
    observe progs frames f left turn = observe progs frames f right turn := by
  have hframe : flowTuple (frames turn.packet) = some f := by simpa [ofFlow] using hown
  have hnext := h.next turn.packet hframe
  have hstep := (agreeOn_step progs turn hown h).entry
  obtain ⟨attr, hleft⟩ := Option.isSome_iff_exists.mp h.isSome
  have hright : right.flowMap.lookup f = some attr := by rw [← h.entry, hleft]
  have hprintk : (left.outcome frames turn).bind Outcome.printk =
      (right.outcome frames turn).bind Outcome.printk := by
    cases hprogram : left.next turn.packet with
    | none => simp only [outcome, ← hnext, hprogram, Option.map_none]
    | some program =>
      rw [outcome_of_next_eq_some hprogram, outcome_of_next_eq_some (hnext ▸ hprogram),
        exec_of_lookup_eq_some hframe hleft, exec_of_lookup_eq_some hframe hright]
      rfl
  unfold observe
  rw [hnext, hstep, hprintk]

end

/-- Flows do not interfere.  Leaving out every turn of other flows and of frames that are not
accepted keeps what a flow with an entry sees of its own turns: the program that runs, the entry
after it and the line that is printed.  No left-out turn changes or removes the entry. -/
theorem observations_ofFlow (progs : ProgArray) (frames : ℕ → Frame) (machine : Machine) (f : Flow)
    (hentry : (machine.flowMap.lookup f).isSome) (turns : List Turn) :
    Interleaving.observations (step progs frames) (ofFlow frames f) (observe progs frames f) machine
          turns =
        Interleaving.observations (step progs frames) (ofFlow frames f) (observe progs frames f)
          machine (turns.filter (ofFlow frames f)) ∧
      ∀ (reached : Machine) (turn : Turn), ofFlow frames f turn = false →
        (reached.step progs frames turn).flowMap.lookup f = reached.flowMap.lookup f := by
  constructor
  · exact Interleaving.observations_filter (step progs frames) (ofFlow frames f)
      (observe progs frames f)
      (fun _ _ turn hown hagree ↦ observe_eq_of_agreeOn progs turn hown hagree)
      (fun _ _ turn hown hagree ↦ agreeOn_step progs turn hown hagree)
      (fun _ _ turn hforeign hagree ↦ agreeOn_step_left progs turn hforeign hagree)
      (agreeOn_refl hentry) turns
  · intro reached turn hforeign
    exact lookup_step_of_not_ofFlow progs hforeign

/-- A detection of one flow next to a packet that opens another flow. -/
theorem observations_ofFlow_hostFrame :
    let frames : ℕ → Frame := fun packet ↦ hostFrame (if packet = 0 then 7 else 9) 40 true
    let machine : Machine :=
      { flowMap := BpfMap.HashMap.empty.updateNoExist (hostFlow 7) FlowAttribute.zero
        next := fun _ ↦ some .xdpProg }
    let nn : NnMaps := ⟨#v[Net.zero, shippedNet], #v[1]⟩
    let turns : List Turn := [0, 1, 0, 1, 1, 0].map fun packet ↦ ⟨packet, ⟨9, 9, 9, 9, 9⟩, nn⟩
    Interleaving.observations (step loadedProgs frames) (ofFlow frames (hostFlow 7))
        (observe loadedProgs frames (hostFlow 7)) machine turns =
      Interleaving.observations (step loadedProgs frames) (ofFlow frames (hostFlow 7))
        (observe loadedProgs frames (hostFlow 7)) machine
        (turns.filter (ofFlow frames (hostFlow 7))) := by
  intro frames machine nn turns
  have hentry : machine.flowMap.lookup (hostFlow 7) = some FlowAttribute.zero :=
    BpfMap.HashMap.lookup_updateNoExist_self_of_canCreate
      (BpfMap.HashMap.canCreate_empty (by decide) _) _
  exact (observations_ofFlow loadedProgs frames machine (hostFlow 7) (by rw [hentry]; rfl) turns).1

end Machine

end NNeBPF

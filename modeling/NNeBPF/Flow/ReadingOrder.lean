import NNeBPF.Flow.Clocks

/-!
# The order of the clock readings

Whether the updates of a flow come in the order in which their handlers have read the clock can be
seen from its entry, which has the last reading, and from the schedule alone.  As long as the flow
finds room in the map both mean the same.
-/

namespace NNeBPF

namespace Clocked

variable {n : ℕ}

/-- A handler that updates the entry of `f` has not read the clock before one that has updated it.
The map does not matter. -/
def InReadingOrder (packets : Fin n → AcceptedPacket) (f : Flow) (state : Clocked n)
    (event : ClockEvent n) : Prop :=
  ∀ h time, event = .update h → state.pcs h = .read time → (packets h).flow = f →
    ∀ other taken, (packets other).flow = f → state.pcs other = .done taken → taken ≤ time

/-- There is an entry for `f`, or room for one. -/
def HasRoom (f : Flow) (state : Clocked n) : Prop :=
  f ∈ state.flowMap.keys ∨ state.flowMap.keys.card < maxPacketReacord

/-- No handler of `f` that is done has read the clock after `last_packet_time`. -/
def DoneBeforeLast (packets : Fin n → AcceptedPacket) (f : Flow) (state : Clocked n) : Prop :=
  ∀ other taken, (packets other).flow = f → state.pcs other = .done taken →
    ∃ attr, state.flowMap.lookup f = some attr ∧ taken ≤ attr.lastPacketTime.toNat

/-- `last_packet_time` is the reading of a handler of `f` that is done. -/
def LastIsDone (packets : Fin n → AcceptedPacket) (f : Flow) (state : Clocked n) : Prop :=
  ∀ attr, state.flowMap.lookup f = some attr →
    ∃ other, (packets other).flow = f ∧ state.pcs other = .done attr.lastPacketTime.toNat

section

variable {packets : Fin n → AcceptedPacket} {state : Clocked n} {f : Flow}

theorem pcs_step_of_done {other : Fin n} {taken : ℕ} (hdone : state.pcs other = .done taken)
    (event : ClockEvent n) : (state.step packets event).pcs other = .done taken := by
  have hne {h : Fin n} (hpc : state.pcs h ≠ .done taken) : other ≠ h := by
    rintro rfl
    exact hpc hdone
  cases event with
  | tick elapsed => exact hdone
  | read h =>
    simp only [step]
    cases hpc : state.pcs h with
    | start => exact (Function.update_of_ne (hne (by simp [hpc])) _ _).trans hdone
    | read time => exact hdone
    | done time => exact hdone
  | update h =>
    simp only [step]
    cases hpc : state.pcs h with
    | start => exact hdone
    | read time => exact (Function.update_of_ne (hne (by simp [hpc])) _ _).trans hdone
    | done time => exact hdone

theorem pcs_step_update {h : Fin n} {time : ℕ} (hpc : state.pcs h = .read time) :
    (state.step packets (.update h)).pcs h = .done time := by
  simp only [step, hpc, Function.update_self]

/-- A handler that is done has been done before, or the step is its update. -/
theorem done_of_done_step {event : ClockEvent n} {other : Fin n} {taken : ℕ}
    (hdone : (state.step packets event).pcs other = .done taken) :
    state.pcs other = .done taken ∨ event = .update other ∧ state.pcs other = .read taken := by
  cases event with
  | tick elapsed => exact Or.inl hdone
  | read h =>
    simp only [step] at hdone
    cases hpc : state.pcs h with
    | start =>
      rw [hpc] at hdone
      rcases eq_or_ne other h with rfl | hne
      · simp only [Function.update_self, reduceCtorEq] at hdone
      · simp only [Function.update_of_ne hne] at hdone
        exact Or.inl hdone
    | read _ => rw [hpc] at hdone; exact Or.inl hdone
    | done _ => rw [hpc] at hdone; exact Or.inl hdone
  | update h =>
    simp only [step] at hdone
    cases hpc : state.pcs h with
    | start => rw [hpc] at hdone; exact Or.inl hdone
    | done _ => rw [hpc] at hdone; exact Or.inl hdone
    | read time =>
      rw [hpc] at hdone
      rcases eq_or_ne other h with rfl | hne
      · simp only [Function.update_self, ClockPc.done.injEq] at hdone
        subst hdone
        exact Or.inr ⟨rfl, hpc⟩
      · simp only [Function.update_of_ne hne] at hdone
        exact Or.inl hdone

/-- Where there is room an update leaves an entry with its reading. -/
theorem lookup_step_update (hpast : ReadingsPast state) (hclock : state.clock < 2 ^ 63) {h : Fin n}
    {time : ℕ} (hpc : state.pcs h = .read time) (hroom : HasRoom (packets h).flow state) :
    ∃ attr, (state.step packets (.update h)).flowMap.lookup (packets h).flow = some attr ∧
      attr.lastPacketTime.toNat = time := by
  have hself := lookup_updateFlowAttribute_self hroom (packets h).frame.tcpHdr
    (packets h).frame.ipHdr.packetLength ((packets h).ktimeAt time)
  refine ⟨_, ?_, toNat_lastPacketTime_updateAt hpast hclock hpc hself⟩
  simp only [step, hpc]
  exact hself

theorem doneBeforeLast_step (hpast : ReadingsPast state) (hclock : state.clock < 2 ^ 63)
    (hroom : HasRoom f state) {event : ClockEvent n} (horder : InOrder packets f state event)
    (hdone : DoneBeforeLast packets f state) :
    DoneBeforeLast packets f (state.step packets event) := by
  intro other taken hflow hother
  by_cases hupdate : ∃ h time, event = .update h ∧ state.pcs h = .read time ∧ (packets h).flow = f
  · obtain ⟨h, time, rfl, hpc, rfl⟩ := hupdate
    obtain ⟨attr, hattr, htime⟩ := lookup_step_update hpast hclock hpc hroom
    refine ⟨attr, hattr, ?_⟩
    rw [htime]
    rcases done_of_done_step hother with hbefore | ⟨hevent, hread⟩
    · obtain ⟨old, hold, hle⟩ := hdone other taken hflow hbefore
      exact hle.trans (horder h time old rfl hpc rfl hold)
    · rw [← ClockEvent.update.inj hevent, hpc] at hread
      exact (ClockPc.read.inj hread).ge
  · rcases step_cases packets state f event with ⟨hlookup, -⟩ | ⟨h, time, hevent, hpc, hf, -, -⟩
    · rw [hlookup]
      rcases done_of_done_step hother with hbefore | ⟨hevent, hread⟩
      · exact hdone other taken hflow hbefore
      · exact absurd ⟨other, taken, hevent, hread, hflow⟩ hupdate
    · exact absurd ⟨h, time, hevent, hpc, hf⟩ hupdate

theorem lastIsDone_step (hpast : ReadingsPast state) (hclock : state.clock < 2 ^ 63)
    (hlast : LastIsDone packets f state) (event : ClockEvent n) :
    LastIsDone packets f (state.step packets event) := by
  intro attr hattr
  rcases step_cases packets state f event with ⟨hlookup, -⟩ | ⟨h, time, rfl, hpc, rfl, hmap, -⟩
  · rw [hlookup] at hattr
    obtain ⟨other, hflow, hdone⟩ := hlast attr hattr
    exact ⟨other, hflow, pcs_step_of_done hdone event⟩
  · rw [hmap] at hattr
    rw [toNat_lastPacketTime_updateAt hpast hclock hpc hattr]
    exact ⟨h, rfl, pcs_step_update hpc⟩

/-- A flow for which there is no room never gets an entry. -/
theorem hasRoom_of_hasRoom_step {event : ClockEvent n}
    (hroom : HasRoom f (state.step packets event)) : HasRoom f state := by
  by_contra hfull
  have hcard : state.flowMap.keys.card = maxPacketReacord :=
    le_antisymm state.flowMap.card_keys_le (not_lt.mp fun hlt ↦ hfull (Or.inr hlt))
  have hkeys : (state.step packets event).flowMap.keys = state.flowMap.keys := by
    cases event with
    | tick elapsed => rfl
    | read h =>
      simp only [step]
      split <;> rfl
    | update h =>
      simp only [step]
      split
      · rename_i time hpc
        cases hattr : state.flowMap.lookup (packets h).flow with
        | none =>
          exact congrArg BpfMap.HashMap.keys (updateFlowAttribute_of_full hattr hcard _ _ _)
        | some attr =>
          have hmem : (packets h).flow ∈ state.flowMap.keys :=
            (state.flowMap.mem_keys_iff _).mpr ⟨attr, hattr⟩
          exact (keys_updateFlowAttribute (Or.inl hmem) _ _ _).trans (Finset.insert_eq_of_mem hmem)
      · rfl
  rw [HasRoom, hkeys] at hroom
  exact hfull hroom

theorem hasRoom_of_hasRoom_run (events : List (ClockEvent n))
    (hroom : HasRoom f (Interleaving.run (step packets) state events)) : HasRoom f state := by
  induction events generalizing state with
  | nil => exact hroom
  | cons event events ih => exact hasRoom_of_hasRoom_step (ih hroom)

end

/-- If the flow has an entry in the end, its updates keep to the order that its entry asks for
exactly if they come in the order in which their handlers have read the clock. -/
theorem inOrder_iff_inReadingOrder (packets : Fin n → AcceptedPacket) (f : Flow)
    (events : List (ClockEvent n))
    (hclock : (Interleaving.run (step packets) (initial n) events).clock < 2 ^ 63)
    (hentry : ((Interleaving.run (step packets) (initial n) events).flowMap.lookup f).isSome) :
    Interleaving.Throughout (step packets) (InOrder packets f) (initial n) events ↔
      Interleaving.Throughout (step packets) (InReadingOrder packets f) (initial n) events := by
  have hroom : Interleaving.Throughout (step packets) (fun state _ ↦ HasRoom f state) (initial n)
      events := by
    intro earlier event later hsplit
    rw [hsplit, Interleaving.run_append] at hentry
    exact hasRoom_of_hasRoom_run (event :: later)
      (Or.inl ((BpfMap.HashMap.mem_keys_iff _ _).mpr (Option.isSome_iff_exists.mp hentry)))
  have hclocks := throughout_clock packets hclock
  constructor
  · intro horder
    have hstep : ∀ (state : Clocked n) event,
        state.clock < 2 ^ 63 ∧ HasRoom f state ∧ InOrder packets f state event →
        ReadingsPast state ∧ DoneBeforeLast packets f state →
        ReadingsPast (state.step packets event) ∧
          DoneBeforeLast packets f (state.step packets event) := by
      intro state event ⟨hlt, hfree, hin⟩ ⟨hpast, hdone⟩
      exact ⟨readingsPast_step hpast event, doneBeforeLast_step hpast hlt hfree hin hdone⟩
    have hguarantee : ∀ (state : Clocked n) event,
        state.clock < 2 ^ 63 ∧ HasRoom f state ∧ InOrder packets f state event →
        ReadingsPast state ∧ DoneBeforeLast packets f state →
        InReadingOrder packets f state event := by
      intro state event ⟨_, _, hin⟩ ⟨_, hdone⟩ h time hevent hpc hflow other taken hother hread
      obtain ⟨attr, hattr, hle⟩ := hdone other taken hother hread
      exact hle.trans (hin h time attr hevent hpc hflow hattr)
    have hinitial : DoneBeforeLast packets f (initial n) := by
      intro other taken _ hdone
      cases hdone
    refine Interleaving.throughout_of_invariant (step packets) hstep hguarantee
      ⟨readingsPast_initial, hinitial⟩ ?_
    intro earlier event later hsplit
    exact ⟨hclocks earlier event later hsplit, hroom earlier event later hsplit,
      horder earlier event later hsplit⟩
  · intro horder
    have hstep : ∀ (state : Clocked n) event,
        state.clock < 2 ^ 63 ∧ InReadingOrder packets f state event →
        ReadingsPast state ∧ LastIsDone packets f state →
        ReadingsPast (state.step packets event) ∧
          LastIsDone packets f (state.step packets event) := by
      intro state event ⟨hlt, _⟩ ⟨hpast, hlast⟩
      exact ⟨readingsPast_step hpast event, lastIsDone_step hpast hlt hlast event⟩
    have hguarantee : ∀ (state : Clocked n) event,
        state.clock < 2 ^ 63 ∧ InReadingOrder packets f state event →
        ReadingsPast state ∧ LastIsDone packets f state → InOrder packets f state event := by
      intro state event ⟨_, hin⟩ ⟨_, hlast⟩ h time attr hevent hpc hflow hattr
      obtain ⟨other, hother, hdone⟩ := hlast attr hattr
      exact hin h time hevent hpc hflow other _ hother hdone
    have hinitial : LastIsDone packets f (initial n) := by
      intro attr hattr
      cases hattr
    refine Interleaving.throughout_of_invariant (step packets) hstep hguarantee
      ⟨readingsPast_initial, hinitial⟩ ?_
    intro earlier event later hsplit
    exact ⟨hclocks earlier event later hsplit, horder earlier event later hsplit⟩

/-- The second reading is recorded before the first one. -/
theorem not_inOrder_overtaken :
    ¬ Interleaving.Throughout (step fun _ ↦ plainPacket)
      (InOrder (fun _ ↦ plainPacket) (hostFlow 7)) (initial 2) (overtaken 0 1) := by
  have hclock : (Interleaving.run (step fun _ ↦ plainPacket) (initial 2)
      (overtaken 0 1)).clock < 2 ^ 63 := by decide +kernel
  have hentry : ((Interleaving.run (step fun _ ↦ plainPacket) (initial 2)
      (overtaken 0 1)).flowMap.lookup (hostFlow 7)).isSome := by decide +kernel
  have hfive : (plainRun (overtaken 0 1) 5).pcs 0 = .read 5 := by decide +kernel
  have hten : (plainRun (overtaken 0 1) 5).pcs 1 = .done 10 := by decide +kernel
  rw [inOrder_iff_inReadingOrder (fun _ ↦ plainPacket) (hostFlow 7) (overtaken 0 1) hclock hentry]
  intro horder
  have hlate := horder ((overtaken 0 1).take 5) (.update 0) [] rfl 0 5 rfl hfive rfl 1 10 rfl hten
  omega

end Clocked

end NNeBPF

import NNeBPF.Flow.Creation

/-!
# Clock readings on several CPUs

A handler reads the clock first and updates the entry later, in two atomic steps.  Handlers of one
flow may update its entry in another order than they have read the clock; then the unsigned
difference underflows and `last_packet_time` goes back.  While the updates come in the order of the
readings, `max_duration` is a difference of two readings.
-/

namespace NNeBPF

/-- The step that a handler takes next, with the reading that it has taken. -/
inductive ClockPc
  | start
  | read (time : ℕ)
  | done (time : ℕ)
deriving DecidableEq

/-- The reading of the clock that a handler has taken. -/
def ClockPc.reading : ClockPc → Option ℕ
  | .start => none
  | .read time | .done time => some time

/-- The map, the time on the global clock and the places of all handlers. -/
structure Clocked (n : ℕ) where
  flowMap : FlowMap
  clock : ℕ
  pcs : Fin n → ClockPc

/-- The clock advances, a handler reads it, or a handler runs the rest of
`update_flow_attribute`. -/
inductive ClockEvent (n : ℕ)
  | tick (elapsed : ℕ)
  | read (h : Fin n)
  | update (h : Fin n)

/-- The readings of a handler whose first reading is `time`. -/
def AcceptedPacket.ktimeAt (packet : AcceptedPacket) (time : ℕ) : Ktime :=
  { packet.ktime with packetTime := BitVec.ofNat 64 time }

/-- `update_flow_attribute` behind its first line. -/
def AcceptedPacket.updateAt (packet : AcceptedPacket) (time : ℕ) (flowMap : FlowMap) : FlowMap :=
  updateFlowAttribute flowMap packet.flow packet.frame.tcpHdr packet.frame.ipHdr.packetLength
    (packet.ktimeAt time)

namespace Clocked

variable {n : ℕ}

def step (packets : Fin n → AcceptedPacket) (state : Clocked n) : ClockEvent n → Clocked n
  | .tick elapsed => { state with clock := state.clock + elapsed }
  | .read h =>
    match state.pcs h with
    | .start => { state with pcs := Function.update state.pcs h (.read state.clock) }
    | _ => state
  | .update h =>
    match state.pcs h with
    | .read time =>
      { state with
        flowMap := (packets h).updateAt time state.flowMap
        pcs := Function.update state.pcs h (.done time) }
    | _ => state

/-- No flow is known, and no handler has begun. -/
def initial (n : ℕ) : Clocked n := ⟨BpfMap.HashMap.empty, 0, fun _ ↦ .start⟩

/-- The clock readings taken for a flow. -/
def readings (packets : Fin n → AcceptedPacket) (f : Flow) (state : Clocked n) : Set ℕ :=
  {time | ∃ h, (packets h).flow = f ∧ (state.pcs h).reading = some time}

/-- `max_duration` as a signed number is not negative, and at most the difference between the
largest and the smallest reading taken for the flow. -/
def RealDuration (packets : Fin n → AcceptedPacket) (f : Flow) (state : Clocked n) : Prop :=
  ∀ attr, state.flowMap.lookup f = some attr →
    ∃ earliest latest, IsLeast (readings packets f state) earliest ∧
      IsGreatest (readings packets f state) latest ∧
      0 ≤ attr.maxDuration.toInt ∧ attr.maxDuration.toInt ≤ (latest : ℤ) - earliest

/-- The step does not decrease `last_packet_time`. -/
def NeverBack (packets : Fin n → AcceptedPacket) (f : Flow) (state : Clocked n)
    (event : ClockEvent n) : Prop :=
  ∀ before after, state.flowMap.lookup f = some before →
    (state.step packets event).flowMap.lookup f = some after →
      before.lastPacketTime.toInt ≤ after.lastPacketTime.toInt

/-- A handler that updates the entry of `f` has not read the clock before its last packet. -/
def InOrder (packets : Fin n → AcceptedPacket) (f : Flow) (state : Clocked n)
    (event : ClockEvent n) : Prop :=
  ∀ h time attr, event = .update h → state.pcs h = .read time → (packets h).flow = f →
    state.flowMap.lookup f = some attr → attr.lastPacketTime.toNat ≤ time

section

variable {packets : Fin n → AcceptedPacket} {state : Clocked n} {f : Flow}

/-! ## Readings -/

variable (packets state) in
/-- What a step does to the map and to the readings of a flow. -/
theorem step_cases (f : Flow) (event : ClockEvent n) :
    ((state.step packets event).flowMap.lookup f = state.flowMap.lookup f ∧
      readings packets f state ⊆ readings packets f (state.step packets event)) ∨
    ∃ h time, event = .update h ∧ state.pcs h = .read time ∧ (packets h).flow = f ∧
      (state.step packets event).flowMap = (packets h).updateAt time state.flowMap ∧
      readings packets f (state.step packets event) = readings packets f state := by
  cases event with
  | tick elapsed => exact Or.inl ⟨rfl, subset_rfl⟩
  | read h =>
    left
    simp only [step]
    cases hpc : state.pcs h with
    | start =>
      refine ⟨rfl, ?_⟩
      rintro time ⟨other, hflow, hreading⟩
      have hne : other ≠ h := by
        rintro rfl
        rw [hpc] at hreading
        cases hreading
      have hpcs : Function.update state.pcs h (.read state.clock) other = state.pcs other :=
        Function.update_of_ne hne _ _
      refine ⟨other, hflow, ?_⟩
      show (Function.update state.pcs h (.read state.clock) other).reading = some time
      rw [hpcs]
      exact hreading
    | read time => exact ⟨rfl, subset_rfl⟩
    | done time => exact ⟨rfl, subset_rfl⟩
  | update h =>
    simp only [step]
    cases hpc : state.pcs h with
    | start => exact Or.inl ⟨rfl, subset_rfl⟩
    | done time => exact Or.inl ⟨rfl, subset_rfl⟩
    | read time =>
      -- The reading that the handler has taken stays its reading.
      have hreadings : readings packets f
          { state with
            flowMap := (packets h).updateAt time state.flowMap
            pcs := Function.update state.pcs h (.done time) } = readings packets f state := by
        ext other
        have hreading (k : Fin n) : (Function.update state.pcs h (.done time) k).reading =
            (state.pcs k).reading := by
          rcases eq_or_ne k h with rfl | hne
          · rw [Function.update_self, hpc]
            rfl
          · rw [Function.update_of_ne hne]
        simp only [readings, hreading]
      rcases eq_or_ne (packets h).flow f with hflow | hne
      · exact Or.inr ⟨h, time, rfl, hpc, hflow, rfl, hreadings⟩
      · left
        exact ⟨lookup_updateFlowAttribute_of_ne _ _ _ _ hne.symm, hreadings.ge⟩

theorem clock_le_clock_step (event : ClockEvent n) :
    state.clock ≤ (state.step packets event).clock := by
  cases event with
  | tick elapsed => exact Nat.le_add_right _ _
  | read h =>
    simp only [step]
    split <;> exact le_rfl
  | update h =>
    simp only [step]
    split <;> exact le_rfl

theorem clock_le_clock_run (events : List (ClockEvent n)) :
    state.clock ≤ (Interleaving.run (step packets) state events).clock := by
  have hstep : ∀ (reached : Clocked n) event, state.clock ≤ reached.clock →
      state.clock ≤ (step packets reached event).clock :=
    fun _ event h ↦ h.trans (clock_le_clock_step event)
  exact Interleaving.run_invariant (step packets) hstep le_rfl events

/-- No reading is ahead of the clock. -/
def ReadingsPast (state : Clocked n) : Prop :=
  ∀ h time, (state.pcs h).reading = some time → time ≤ state.clock

theorem readingsPast_step (hpast : ReadingsPast state) (event : ClockEvent n) :
    ReadingsPast (state.step packets event) := by
  intro h time hreading
  cases event with
  | tick elapsed =>
    have hle : time ≤ state.clock := hpast h time hreading
    exact hle.trans (Nat.le_add_right _ _)
  | read other =>
    simp only [step] at hreading ⊢
    cases hpc : state.pcs other with
    | start =>
      rw [hpc] at hreading
      rcases eq_or_ne h other with rfl | hne
      · simp only [Function.update_self, ClockPc.reading, Option.some.injEq] at hreading
        exact hreading.ge
      · simp only [Function.update_of_ne hne] at hreading
        exact hpast h time hreading
    | read _ => rw [hpc] at hreading; exact hpast h time hreading
    | done _ => rw [hpc] at hreading; exact hpast h time hreading
  | update other =>
    simp only [step] at hreading ⊢
    cases hpc : state.pcs other with
    | start => rw [hpc] at hreading; exact hpast h time hreading
    | done _ => rw [hpc] at hreading; exact hpast h time hreading
    | read taken =>
      rw [hpc] at hreading
      rcases eq_or_ne h other with rfl | hne
      · simp only [Function.update_self, ClockPc.reading, Option.some.injEq] at hreading
        apply hpast h time
        rw [hpc, ← hreading]
        rfl
      · simp only [Function.update_of_ne hne] at hreading
        exact hpast h time hreading

/-! ## The two fields of an entry -/

/-- `last_packet_time` is a reading that was taken for the flow. -/
def LastIsReading (packets : Fin n → AcceptedPacket) (f : Flow) (state : Clocked n) : Prop :=
  ∀ attr, state.flowMap.lookup f = some attr →
    attr.lastPacketTime.toNat ∈ readings packets f state

/-- `max_duration` is the difference of two readings that were taken for the flow. -/
def DurationIsGap (packets : Fin n → AcceptedPacket) (f : Flow) (state : Clocked n) : Prop :=
  ∀ attr, state.flowMap.lookup f = some attr →
    ∃ earlier ∈ readings packets f state, ∃ later ∈ readings packets f state,
      earlier + attr.maxDuration.toNat = later

/-- The entry that an update leaves. -/
theorem lookup_updateAt {packet : AcceptedPacket} {time : ℕ} {flowMap : FlowMap}
    {attr : FlowAttribute} (hattr : (packet.updateAt time flowMap).lookup packet.flow = some attr) :
    attr = recordPacket packet.frame.tcpHdr packet.frame.ipHdr.packetLength (packet.ktimeAt time)
      ((flowMap.lookup packet.flow).getD
        (newFlowAttribute packet.frame.tcpHdr (packet.ktimeAt time))) :=
  eq_recordPacket_of_lookup hattr

theorem toNat_packetTime_ktimeAt (packet : AcceptedPacket) {time : ℕ} (h : time < 2 ^ 63) :
    (packet.ktimeAt time).packetTime.toNat = time := by
  have hword : (packet.ktimeAt time).packetTime = BitVec.ofNat 64 time := rfl
  rw [hword, BitVec.toNat_ofNat]
  exact Nat.mod_eq_of_lt (by omega)

theorem mem_readings_of_read {h : Fin n} {time : ℕ} (hpc : state.pcs h = .read time) :
    time ∈ readings packets (packets h).flow state :=
  ⟨h, rfl, by rw [hpc]; rfl⟩

/-- The time that an update leaves is the reading of its handler. -/
theorem toNat_lastPacketTime_updateAt (hpast : ReadingsPast state) (hclock : state.clock < 2 ^ 63)
    {h : Fin n} {time : ℕ} (hpc : state.pcs h = .read time) {attr : FlowAttribute}
    (hattr : ((packets h).updateAt time state.flowMap).lookup (packets h).flow = some attr) :
    attr.lastPacketTime.toNat = time := by
  have hle : time ≤ state.clock := hpast h time (by rw [hpc]; rfl)
  rw [lookup_updateAt hattr]
  exact toNat_packetTime_ktimeAt (packets h) (lt_of_le_of_lt hle hclock)

theorem lastIsReading_step (hpast : ReadingsPast state) (hclock : state.clock < 2 ^ 63)
    (hlast : LastIsReading packets f state) (event : ClockEvent n) :
    LastIsReading packets f (state.step packets event) := by
  intro attr hattr
  rcases step_cases packets state f event with ⟨hlookup, hreadings⟩ |
    ⟨h, time, -, hpc, rfl, hmap, hreadings⟩
  · rw [hlookup] at hattr
    exact hreadings (hlast attr hattr)
  · rw [hmap] at hattr
    rw [toNat_lastPacketTime_updateAt hpast hclock hpc hattr, hreadings]
    exact mem_readings_of_read hpc

/-- An update in order adds a gap between two readings. -/
theorem durationIsGap_step (hpast : ReadingsPast state) (hclock : state.clock < 2 ^ 63)
    (hlast : LastIsReading packets f state) {event : ClockEvent n}
    (horder : InOrder packets f state event) (hgap : DurationIsGap packets f state) :
    DurationIsGap packets f (state.step packets event) := by
  intro attr hattr
  rcases step_cases packets state f event with ⟨hlookup, hreadings⟩ |
    ⟨h, time, hevent, hpc, rfl, hmap, hreadings⟩
  · rw [hlookup] at hattr
    obtain ⟨earlier, hearlier, later, hlater, heq⟩ := hgap attr hattr
    exact ⟨earlier, hreadings hearlier, later, hreadings hlater, heq⟩
  · rw [hmap] at hattr
    rw [hreadings, lookup_updateAt hattr, maxDuration_recordPacket, toNat_unsignedMax]
    have hmem : time ∈ readings packets (packets h).flow state := mem_readings_of_read hpc
    have hle : time ≤ state.clock := hpast h time (by rw [hpc]; rfl)
    have htime : ((packets h).ktimeAt time).packetTime.toNat = time :=
      toNat_packetTime_ktimeAt (packets h) (lt_of_le_of_lt hle hclock)
    cases hold : state.flowMap.lookup (packets h).flow with
    | none =>
      -- The first packet of the flow has no gap before it.
      have hduration : (newFlowAttribute (packets h).frame.tcpHdr
          ((packets h).ktimeAt time)).duration ((packets h).ktimeAt time) = 0 := BitVec.sub_self _
      have hinitial : (newFlowAttribute (packets h).frame.tcpHdr
          ((packets h).ktimeAt time)).maxDuration = 0 := rfl
      rw [Option.getD_none, hduration, hinitial]
      exact ⟨time, hmem, time, hmem, by simp⟩
    | some old =>
      have hsince : old.lastPacketTime.toNat ≤ time := horder h time old hevent hpc rfl hold
      have hword : old.lastPacketTime ≤ ((packets h).ktimeAt time).packetTime := by
        rw [BitVec.le_def, htime]
        exact hsince
      rw [Option.getD_some, FlowAttribute.toNat_duration_of_le hword, htime]
      rcases le_total (time - old.lastPacketTime.toNat) old.maxDuration.toNat with hmax | hmax
      · rw [max_eq_left hmax]
        exact hgap old hold
      · rw [max_eq_right hmax]
        exact ⟨old.lastPacketTime.toNat, hlast old hold, time, hmem, Nat.add_sub_cancel' hsince⟩

/-- A difference of readings is a real duration. -/
theorem realDuration_of_gap (hpast : ReadingsPast state) (hclock : state.clock < 2 ^ 63)
    (hgap : DurationIsGap packets f state) : RealDuration packets f state := by
  intro attr hattr
  obtain ⟨earlier, hearlier, later, hlater, heq⟩ := hgap attr hattr
  have hbound : state.clock ∈ upperBounds (readings packets f state) := by
    intro time ⟨h, _, hreading⟩
    exact hpast h time hreading
  have hearliest : IsLeast (readings packets f state) (sInf (readings packets f state)) :=
    ⟨Nat.sInf_mem ⟨earlier, hearlier⟩, fun _ h ↦ Nat.sInf_le h⟩
  have hlatest : IsGreatest (readings packets f state) (sSup (readings packets f state)) :=
    ⟨Nat.sSup_mem ⟨later, hlater⟩ ⟨_, hbound⟩, fun _ h ↦ le_csSup ⟨_, hbound⟩ h⟩
  have hfirst : sInf (readings packets f state) ≤ earlier := hearliest.2 hearlier
  have hsecond : later ≤ sSup (readings packets f state) := hlatest.2 hlater
  have hlaterPast : later ≤ state.clock := hbound hlater
  have hint : attr.maxDuration.toInt = attr.maxDuration.toNat :=
    BitVec.toInt_eq_toNat_of_lt (by omega)
  refine ⟨_, _, hearliest, hlatest, ?_, ?_⟩ <;> omega

/-- An update in order does not decrease `last_packet_time`, and an update out of order does. -/
theorem neverBack_iff_inOrder (hpast : ReadingsPast state) (hclock : state.clock < 2 ^ 63)
    (hlast : LastIsReading packets f state) (event : ClockEvent n) :
    NeverBack packets f state event ↔ InOrder packets f state event := by
  have hint {attr : FlowAttribute} (hattr : state.flowMap.lookup f = some attr) :
      attr.lastPacketTime.toInt = attr.lastPacketTime.toNat := by
    obtain ⟨h, -, hreading⟩ := hlast attr hattr
    have hle := hpast h _ hreading
    exact BitVec.toInt_eq_toNat_of_lt (by omega)
  have hafter {h : Fin n} {time : ℕ} (hpc : state.pcs h = .read time) {attr : FlowAttribute}
      (hattr : ((packets h).updateAt time state.flowMap).lookup (packets h).flow = some attr) :
      attr.lastPacketTime.toInt = time := by
    have hle : time ≤ state.clock := hpast h time (by rw [hpc]; rfl)
    have htime := toNat_lastPacketTime_updateAt hpast hclock hpc hattr
    rw [BitVec.toInt_eq_toNat_of_lt (by omega), htime]
  constructor
  · intro hback h time old hevent hpc hflow hold
    subst hflow hevent
    have hroom : (packets h).flow ∈ state.flowMap.keys ∨
        state.flowMap.keys.card < maxPacketReacord :=
      Or.inl ((state.flowMap.mem_keys_iff _).mpr ⟨old, hold⟩)
    have hself := lookup_updateFlowAttribute_self hroom (packets h).frame.tcpHdr
      (packets h).frame.ipHdr.packetLength ((packets h).ktimeAt time)
    have hstep : (state.step packets (.update h)).flowMap =
        (packets h).updateAt time state.flowMap := by
      simp only [step, hpc]
    have hle := hback old _ hold (by rw [hstep]; exact hself)
    rw [hint hold, hafter hpc hself] at hle
    exact_mod_cast hle
  · intro horder before after hbefore hlater
    rcases step_cases packets state f event with ⟨hlookup, -⟩ |
      ⟨h, time, hevent, hpc, rfl, hmap, -⟩
    · rw [hlookup, hbefore] at hlater
      rw [Option.some.inj hlater]
    · rw [hmap] at hlater
      rw [hint hbefore, hafter hpc hlater]
      exact_mod_cast horder h time before hevent hpc rfl hbefore

end

/-! ## All interleavings -/

theorem throughout_clock (packets : Fin n → AcceptedPacket) {events : List (ClockEvent n)}
    (hclock : (Interleaving.run (step packets) (initial n) events).clock < 2 ^ 63) :
    Interleaving.Throughout (step packets) (fun state _ ↦ state.clock < 2 ^ 63) (initial n)
      events := by
  intro earlier event later hsplit
  rw [hsplit, Interleaving.run_append] at hclock
  exact lt_of_le_of_lt (clock_le_clock_run _) hclock

theorem readingsPast_initial : ReadingsPast (initial n) := by
  intro h time hreading
  cases hreading

theorem lastIsReading_initial (packets : Fin n → AcceptedPacket) (f : Flow) :
    LastIsReading packets f (initial n) := by
  intro attr hattr
  cases hattr

/-- The facts about the readings need no order of the updates. -/
theorem lastIsReading_run (packets : Fin n → AcceptedPacket) (f : Flow)
    {events : List (ClockEvent n)}
    (hclock : (Interleaving.run (step packets) (initial n) events).clock < 2 ^ 63) :
    ReadingsPast (Interleaving.run (step packets) (initial n) events) ∧
      LastIsReading packets f (Interleaving.run (step packets) (initial n) events) := by
  have hstep : ∀ (state : Clocked n) event, state.clock < 2 ^ 63 →
      ReadingsPast state ∧ LastIsReading packets f state →
      ReadingsPast (state.step packets event) ∧
        LastIsReading packets f (state.step packets event) :=
    fun _ event hlt hinv ↦
      ⟨readingsPast_step hinv.1 event, lastIsReading_step hinv.1 hlt hinv.2 event⟩
  exact Interleaving.run_induction_throughout (step packets) hstep
    ⟨readingsPast_initial, lastIsReading_initial packets f⟩ (throughout_clock packets hclock)

/-- While the updates come in order, `max_duration` is a gap between two readings. -/
theorem durationIsGap_run {packets : Fin n → AcceptedPacket} {f : Flow}
    {events : List (ClockEvent n)}
    (hclock : (Interleaving.run (step packets) (initial n) events).clock < 2 ^ 63)
    (horder : Interleaving.Throughout (step packets) (InOrder packets f) (initial n) events) :
    DurationIsGap packets f (Interleaving.run (step packets) (initial n) events) := by
  have hstep : ∀ (state : Clocked n) event,
      state.clock < 2 ^ 63 ∧ InOrder packets f state event →
      (ReadingsPast state ∧ LastIsReading packets f state) ∧ DurationIsGap packets f state →
      (ReadingsPast (state.step packets event) ∧
        LastIsReading packets f (state.step packets event)) ∧
      DurationIsGap packets f (state.step packets event) := by
    intro state event ⟨hlt, hin⟩ ⟨⟨hpast, hlast⟩, hgap⟩
    exact ⟨⟨readingsPast_step hpast event, lastIsReading_step hpast hlt hlast event⟩,
      durationIsGap_step hpast hlt hlast hin hgap⟩
  have hgap : DurationIsGap packets f (initial n) := by
    intro attr hattr
    cases hattr
  have hinitial : (ReadingsPast (initial n) ∧ LastIsReading packets f (initial n)) ∧
      DurationIsGap packets f (initial n) :=
    ⟨⟨readingsPast_initial, lastIsReading_initial packets f⟩, hgap⟩
  have hevents : Interleaving.Throughout (step packets)
      (fun state event ↦ state.clock < 2 ^ 63 ∧ InOrder packets f state event) (initial n)
      events := by
    intro earlier event later hsplit
    exact ⟨throughout_clock packets hclock earlier event later hsplit,
      horder earlier event later hsplit⟩
  exact (Interleaving.run_induction_throughout (step packets) hstep hinitial hevents).2

/-- The two fields are what they should be in every state of a run exactly when every update of the
flow's entry comes with a clock reading that is not smaller than the entry's `last_packet_time`. -/
theorem realDurations_iff_inOrder (packets : Fin n → AcceptedPacket) (f : Flow)
    (events : List (ClockEvent n))
    (hclock : (Interleaving.run (step packets) (initial n) events).clock < 2 ^ 63) :
    ((∀ earlier later, events = earlier ++ later →
        RealDuration packets f (Interleaving.run (step packets) (initial n) earlier)) ∧
      Interleaving.Throughout (step packets) (NeverBack packets f) (initial n) events) ↔
    Interleaving.Throughout (step packets) (InOrder packets f) (initial n) events := by
  have hbefore {earlier later : List (ClockEvent n)} (hsplit : events = earlier ++ later) :
      (Interleaving.run (step packets) (initial n) earlier).clock < 2 ^ 63 := by
    rw [hsplit, Interleaving.run_append] at hclock
    exact lt_of_le_of_lt (clock_le_clock_run later) hclock
  have hiff {earlier later : List (ClockEvent n)} {event : ClockEvent n}
      (hsplit : events = earlier ++ event :: later) :
      NeverBack packets f (Interleaving.run (step packets) (initial n) earlier) event ↔
        InOrder packets f (Interleaving.run (step packets) (initial n) earlier) event := by
    have hlt := hbefore hsplit
    obtain ⟨hpast, hlast⟩ := lastIsReading_run packets f hlt
    exact neverBack_iff_inOrder hpast hlt hlast event
  constructor
  · intro ⟨_, hback⟩ earlier event later hsplit
    exact (hiff hsplit).mp (hback earlier event later hsplit)
  · intro horder
    constructor
    · intro earlier later hsplit
      have hlt := hbefore hsplit
      have hstart :
          Interleaving.Throughout (step packets) (InOrder packets f) (initial n) earlier :=
        (Interleaving.throughout_append (hsplit ▸ horder)).1
      exact realDuration_of_gap (lastIsReading_run packets f hlt).1 hlt
        (durationIsGap_run hlt hstart)
    · intro earlier event later hsplit
      exact (hiff hsplit).mpr (horder earlier event later hsplit)

/-! ## Two handlers of one flow -/

def plainPacket : AcceptedPacket where
  frame := hostFrame 7 40 false
  ktime := ⟨9, 9, 9, 9, 9⟩
  flow := hostFlow 7
  accepted := flowTuple_hostFrame 7 40 false
  monitored := monitored_hostFlow 7

/-- Both handlers update the entry right after they have read the clock. -/
def oneAfterTheOther (first second : Fin n) : List (ClockEvent n) :=
  [.tick 5, .read first, .update first, .tick 5, .read second, .update second]

/-- The handler that has read the clock first updates the entry last. -/
def overtaken (first second : Fin n) : List (ClockEvent n) :=
  [.tick 5, .read first, .tick 5, .read second, .update second, .update first]

/-- The states after the first `taken` steps of a run of two handlers of the plain packet. -/
def plainRun (events : List (ClockEvent 2)) (taken : ℕ) : Clocked 2 :=
  Interleaving.run (step fun _ ↦ plainPacket) (initial 2) (events.take taken)

theorem realDurations_oneAfterTheOther :
    RealDuration (fun _ ↦ plainPacket) (hostFlow 7) (plainRun (oneAfterTheOther 0 1) 6) := by
  have hclock : (Interleaving.run (step fun _ ↦ plainPacket) (initial 2)
      (oneAfterTheOther 0 1)).clock < 2 ^ 63 := by decide +kernel
  have horder : Interleaving.Throughout (step fun _ ↦ plainPacket)
      (InOrder (fun _ ↦ plainPacket) (hostFlow 7)) (initial 2)
      (oneAfterTheOther 0 1) := by
    have hidle (state : Clocked 2) (event : ClockEvent 2) (hevent : ∀ h, event ≠ .update h) :
        InOrder (fun _ ↦ plainPacket) (hostFlow 7) state event := by
      intro h _ _ hupdate
      exact absurd hupdate (hevent h)
    have hfirst : InOrder (fun _ ↦ plainPacket) (hostFlow 7) (plainRun (oneAfterTheOther 0 1) 2)
        (.update 0) := by
      intro h time attr _ _ _ hattr
      cases hattr
    have hsecond : InOrder (fun _ ↦ plainPacket) (hostFlow 7) (plainRun (oneAfterTheOther 0 1) 5)
        (.update 1) := by
      intro h time attr hevent hpc _ hattr
      have hlast : ((plainRun (oneAfterTheOther 0 1) 5).flowMap.lookup (hostFlow 7)).all
          (fun attr ↦ attr.lastPacketTime.toNat ≤ 10) = true := by decide +kernel
      have hten : (plainRun (oneAfterTheOther 0 1) 5).pcs 1 = .read 10 := by decide +kernel
      rw [hattr, Option.all_some, decide_eq_true_eq] at hlast
      rw [← ClockEvent.update.inj hevent, hten] at hpc
      rw [← ClockPc.read.inj hpc]
      exact hlast
    iterate 2 refine Interleaving.throughout_cons.mpr ⟨hidle _ _ (by simp), ?_⟩
    refine Interleaving.throughout_cons.mpr ⟨hfirst, ?_⟩
    iterate 2 refine Interleaving.throughout_cons.mpr ⟨hidle _ _ (by simp), ?_⟩
    exact Interleaving.throughout_cons.mpr ⟨hsecond, Interleaving.throughout_nil⟩
  exact ((realDurations_iff_inOrder (fun _ ↦ plainPacket) (hostFlow 7) (oneAfterTheOther 0 1)
    hclock).mpr horder).1 (oneAfterTheOther 0 1) [] (List.append_nil _).symm

/-- The late update takes `max_duration` to -5 and `last_packet_time` from 10 back to 5. -/
theorem overtaken_negative_duration :
    (plainRun (overtaken 0 1) 6).clock < 2 ^ 63 ∧
      ¬ RealDuration (fun _ ↦ plainPacket) (hostFlow 7) (plainRun (overtaken 0 1) 6) ∧
      ¬ NeverBack (fun _ ↦ plainPacket) (hostFlow 7) (plainRun (overtaken 0 1) 5) (.update 0) := by
  have hbefore : ((plainRun (overtaken 0 1) 5).flowMap.lookup (hostFlow 7)).any
      (fun attr ↦ attr.lastPacketTime.toInt = 10) = true := by decide +kernel
  have hafter : ((plainRun (overtaken 0 1) 6).flowMap.lookup (hostFlow 7)).any
      (fun attr ↦ attr.lastPacketTime.toInt = 5 && attr.maxDuration.toInt = -5) = true := by
    decide +kernel
  obtain ⟨before, hlookup, hten⟩ := (Option.any_eq_true _ _).mp hbefore
  obtain ⟨after, hlater, hfive⟩ := (Option.any_eq_true _ _).mp hafter
  simp only [Bool.and_eq_true, decide_eq_true_eq] at hten hfive
  refine ⟨by decide +kernel, ?_, ?_⟩
  · intro hreal
    obtain ⟨_, _, _, _, hnonneg, _⟩ := hreal after hlater
    omega
  · intro hback
    have hle := hback before after hlookup hlater
    omega

end Clocked

end NNeBPF

import NNeBPF.Flow.Attribute
import NNeBPF.Library.Interleaving

/-!
# Handlers on several CPUs

`update_flow_attribute` takes up to four atomic steps: the lookup, the creation with `BPF_NOEXIST`,
the second lookup and the recording of the packet.  Handlers of any flows interleave.

`BPF_NOEXIST` and the absence of any delete make the accounting exact: an entry is created once and
never reset, every recorded packet is counted once, and a flow that was refused because the map was
full is refused forever.
-/

namespace NNeBPF

/-- An accepted packet of the monitored host, with the clock readings of its handler. -/
structure AcceptedPacket where
  frame : Frame
  ktime : Ktime
  flow : Flow
  accepted : flowTuple frame = some flow
  monitored : flow.monitored = true

/-- The step that a handler takes next. -/
inductive HandlerPc
  | lookup
  | create
  | recheck
  | account
  | done
  | gaveUp
deriving DecidableEq

/-- The map and the places of all handlers. -/
structure Handling (n : ℕ) where
  flowMap : FlowMap
  pcs : Fin n → HandlerPc

namespace Handling

variable {n : ℕ}

def moveTo (state : Handling n) (h : Fin n) (pc : HandlerPc) : Handling n :=
  { state with pcs := Function.update state.pcs h pc }

def setMap (state : Handling n) (flowMap : FlowMap) : Handling n :=
  { state with flowMap := flowMap }

/-- The next atomic step of a handler. -/
def step (packets : Fin n → AcceptedPacket) (state : Handling n) (h : Fin n) : Handling n :=
  let packet := packets h
  match state.pcs h with
  | .lookup =>
    match state.flowMap.lookup packet.flow with
    | some _ => state.moveTo h .account
    | none => state.moveTo h .create
  | .create =>
    (state.setMap (state.flowMap.updateNoExist packet.flow
      (newFlowAttribute packet.frame.tcpHdr packet.ktime))).moveTo h .recheck
  | .recheck =>
    match state.flowMap.lookup packet.flow with
    | some _ => state.moveTo h .account
    | none => state.moveTo h .gaveUp
  | .account =>
    (state.setMap (state.flowMap.modify packet.flow
      (recordPacket packet.frame.tcpHdr packet.frame.ipHdr.packetLength packet.ktime))).moveTo h
        .done
  | .done => state
  | .gaveUp => state

/-- No flow is known, and no handler has begun. -/
def initial (n : ℕ) : Handling n := ⟨BpfMap.HashMap.empty, fun _ ↦ .lookup⟩

/-- The handlers of a flow that have recorded their packet. -/
def doneHandlers (packets : Fin n → AcceptedPacket) (state : Handling n) (f : Flow) :
    Finset (Fin n) :=
  Finset.univ.filter fun h ↦ (packets h).flow = f ∧ state.pcs h = .done

/-- `4 * doff` summed over packets. -/
def headerSum (packets : Fin n → AcceptedPacket) (handlers : Finset (Fin n)) : ℕ :=
  ∑ h ∈ handlers, 4 * (packets h).frame.tcpHdr.doff.toNat

/-- `ntohs(f.dport)` as the field of the entry holds it. -/
def dstPortOf (f : Flow) : S64 := (bpfNtohs (f.dport.setWidth 16)).setWidth 64

/-- The map has no free entry. -/
def Full (state : Handling n) : Prop := state.flowMap.keys.card = maxPacketReacord

section

variable (state : Handling n) (h : Fin n)

@[simp]
theorem flowMap_moveTo (pc : HandlerPc) : (state.moveTo h pc).flowMap = state.flowMap := rfl

@[simp]
theorem pcs_moveTo_self (pc : HandlerPc) : (state.moveTo h pc).pcs h = pc :=
  Function.update_self _ _ _

@[simp]
theorem pcs_moveTo_of_ne {other : Fin n} (hne : other ≠ h) (pc : HandlerPc) :
    (state.moveTo h pc).pcs other = state.pcs other :=
  Function.update_of_ne hne _ _

@[simp]
theorem flowMap_setMap (flowMap : FlowMap) : (state.setMap flowMap).flowMap = flowMap := rfl

@[simp]
theorem pcs_setMap (flowMap : FlowMap) : (state.setMap flowMap).pcs = state.pcs := rfl

end

/-! ## What a step does -/

section

variable {packets : Fin n → AcceptedPacket} {state : Handling n} {h : Fin n}

/-- A handler that moves without recording its packet is in no list of done handlers. -/
theorem doneHandlers_moveTo_of_ne {pc : HandlerPc} (hold : state.pcs h ≠ .done)
    (hnew : pc ≠ .done) (f : Flow) :
    doneHandlers packets (state.moveTo h pc) f = doneHandlers packets state f := by
  ext other
  simp only [doneHandlers, Finset.mem_filter, Finset.mem_univ, true_and]
  rcases eq_or_ne other h with rfl | hne
  · simp [hold, hnew]
  · rw [pcs_moveTo_of_ne state h hne]

theorem doneHandlers_moveTo_done :
    doneHandlers packets (state.moveTo h .done) (packets h).flow =
      insert h (doneHandlers packets state (packets h).flow) := by
  ext other
  simp only [doneHandlers, Finset.mem_insert, Finset.mem_filter, Finset.mem_univ, true_and]
  rcases eq_or_ne other h with rfl | hne
  · simp
  · rw [pcs_moveTo_of_ne state h hne]
    simp [hne]

theorem doneHandlers_moveTo_of_flow_ne {pc : HandlerPc} {f : Flow} (hf : (packets h).flow ≠ f) :
    doneHandlers packets (state.moveTo h pc) f = doneHandlers packets state f := by
  ext other
  simp only [doneHandlers, Finset.mem_filter, Finset.mem_univ, true_and]
  rcases eq_or_ne other h with rfl | hne
  · simp [hf]
  · rw [pcs_moveTo_of_ne state h hne]

theorem notMem_doneHandlers {f : Flow} (hpc : state.pcs h ≠ .done) :
    h ∉ doneHandlers packets state f := by
  simp [doneHandlers, hpc]

end

/-! ## The invariant -/

/-- The fields of an entry account for exactly the packets of its done handlers. -/
structure Accounts (packets : Fin n → AcceptedPacket) (state : Handling n) (f : Flow)
    (attr : FlowAttribute) : Prop where
  numPacket : attr.numPacket = BitVec.ofNat 64 (doneHandlers packets state f).card
  headerLength :
    attr.headerLength = BitVec.ofNat 64 (headerSum packets (doneHandlers packets state f))
  dstPort : attr.dstPort = dstPortOf f

/-- The account looks at the handlers only. -/
theorem Accounts.setMap {packets : Fin n → AcceptedPacket} {state : Handling n} {f : Flow}
    {attr : FlowAttribute} (haccounts : Accounts packets state f attr) (flowMap : FlowMap) :
    Accounts packets (state.setMap flowMap) f attr :=
  ⟨haccounts.numPacket, haccounts.headerLength, haccounts.dstPort⟩

structure Consistent (packets : Fin n → AcceptedPacket) (state : Handling n) : Prop where
  entry : ∀ f attr, state.flowMap.lookup f = some attr → Accounts packets state f attr
  known : ∀ h, state.pcs h = .account ∨ state.pcs h = .done →
    ∃ attr, state.flowMap.lookup (packets h).flow = some attr
  tried : ∀ h, state.pcs h = .recheck →
    (∃ attr, state.flowMap.lookup (packets h).flow = some attr) ∨ state.Full
  gaveUp : ∀ h, state.pcs h = .gaveUp →
    state.flowMap.lookup (packets h).flow = none ∧ state.Full

theorem consistent_initial (packets : Fin n → AcceptedPacket) :
    Consistent packets (initial n) where
  entry := by
    intro f attr hattr
    cases hattr
  known := by
    rintro h (hpc | hpc) <;> cases hpc
  tried := by
    intro h hpc
    cases hpc
  gaveUp := by
    intro h hpc
    cases hpc

/-- The port in the key of an accepted frame is the port of its TCP header. -/
theorem dstPort_newFlowAttribute (packet : AcceptedPacket) :
    (newFlowAttribute packet.frame.tcpHdr packet.ktime).dstPort = dstPortOf packet.flow := by
  have hflow := eq_of_flowTuple packet.accepted
  have hport : packet.flow.dport.setWidth 16 = packet.frame.tcpHdr.dest := by
    rw [hflow]
    exact BitVec.setWidth_setWidth_of_le _ (by decide)
  unfold dstPortOf
  rw [hport]
  rfl

section

variable {packets : Fin n → AcceptedPacket} {state : Handling n} {h : Fin n}

/-- A new entry accounts for no packet, and no handler of an unknown flow is done. -/
theorem accounts_newFlowAttribute (hconsistent : Consistent packets state)
    (habsent : state.flowMap.lookup (packets h).flow = none) :
    Accounts packets state (packets h).flow
      (newFlowAttribute (packets h).frame.tcpHdr (packets h).ktime) := by
  have hnone : doneHandlers packets state (packets h).flow = ∅ := by
    apply Finset.eq_empty_of_forall_notMem
    intro other hother
    simp only [doneHandlers, Finset.mem_filter, Finset.mem_univ, true_and] at hother
    obtain ⟨attr, hattr⟩ := hconsistent.known other (Or.inr hother.2)
    rw [hother.1, habsent] at hattr
    cases hattr
  refine ⟨?_, ?_, dstPort_newFlowAttribute (packets h)⟩
  · rw [hnone]
    rfl
  · rw [hnone]
    rfl

/-- One more recorded packet. -/
theorem accounts_recordPacket {attr : FlowAttribute} (hpc : state.pcs h ≠ .done)
    (haccounts : Accounts packets state (packets h).flow attr) :
    Accounts packets (state.moveTo h .done) (packets h).flow
      (recordPacket (packets h).frame.tcpHdr (packets h).frame.ipHdr.packetLength
        (packets h).ktime attr) := by
  have hnew : h ∉ doneHandlers packets state (packets h).flow := notMem_doneHandlers hpc
  refine ⟨?_, ?_, haccounts.dstPort⟩
  · have hcard : (doneHandlers packets (state.moveTo h .done) (packets h).flow).card =
        (doneHandlers packets state (packets h).flow).card + 1 := by
      rw [doneHandlers_moveTo_done, Finset.card_insert_of_notMem hnew]
    rw [hcard, BitVec.ofNat_add, ← haccounts.numPacket]
    rfl
  · have hsum : headerSum packets (doneHandlers packets (state.moveTo h .done) (packets h).flow) =
        headerSum packets (doneHandlers packets state (packets h).flow) +
          4 * (packets h).frame.tcpHdr.doff.toNat := by
      unfold headerSum
      rw [doneHandlers_moveTo_done, Finset.sum_insert hnew, Nat.add_comm]
    rw [hsum, BitVec.ofNat_add, ← haccounts.headerLength, ← headerBytes_eq_ofNat]
    rfl

/-- A handler that only looks and moves on. -/
theorem consistent_moveTo {pc : HandlerPc} (hconsistent : Consistent packets state)
    (hold : state.pcs h ≠ .done) (hnew : pc ≠ .done)
    (hknown : pc = .account → ∃ attr, state.flowMap.lookup (packets h).flow = some attr)
    (htried : pc = .recheck →
      (∃ attr, state.flowMap.lookup (packets h).flow = some attr) ∨ state.Full)
    (hgaveUp : pc = .gaveUp → state.flowMap.lookup (packets h).flow = none ∧ state.Full) :
    Consistent packets (state.moveTo h pc) where
  entry := by
    intro f attr hattr
    have haccounts := hconsistent.entry f attr hattr
    refine ⟨?_, ?_, haccounts.dstPort⟩
    · rw [doneHandlers_moveTo_of_ne hold hnew]
      exact haccounts.numPacket
    · rw [doneHandlers_moveTo_of_ne hold hnew]
      exact haccounts.headerLength
  known := by
    intro other hpc
    rcases eq_or_ne other h with rfl | hne
    · rw [pcs_moveTo_self] at hpc
      exact hknown (hpc.resolve_right hnew)
    · rw [pcs_moveTo_of_ne state h hne] at hpc
      exact hconsistent.known other hpc
  tried := by
    intro other hpc
    rcases eq_or_ne other h with rfl | hne
    · rw [pcs_moveTo_self] at hpc
      exact htried hpc
    · rw [pcs_moveTo_of_ne state h hne] at hpc
      exact hconsistent.tried other hpc
  gaveUp := by
    intro other hpc
    rcases eq_or_ne other h with rfl | hne
    · rw [pcs_moveTo_self] at hpc
      exact hgaveUp hpc
    · rw [pcs_moveTo_of_ne state h hne] at hpc
      exact hconsistent.gaveUp other hpc

/-- The creation step on the map: entries stay, a new one accounts for nothing, and a full map
stays as it is. -/
theorem consistent_updateNoExist (hconsistent : Consistent packets state) :
    Consistent packets (state.setMap (state.flowMap.updateNoExist (packets h).flow
      (newFlowAttribute (packets h).frame.tcpHdr (packets h).ktime))) := by
  set created := newFlowAttribute (packets h).frame.tcpHdr (packets h).ktime with hcreated
  by_cases hcreate : state.flowMap.CanCreate (packets h).flow
  · have habsent : state.flowMap.lookup (packets h).flow = none :=
      (state.flowMap.lookup_eq_none_iff _).mpr hcreate.1
    have hroom : ¬ state.Full := fun hfull ↦ absurd hcreate.2 (by rw [hfull]; exact lt_irrefl _)
    have hkept {f : Flow} {attr : FlowAttribute} (hattr : state.flowMap.lookup f = some attr) :
        ∃ later, (state.flowMap.updateNoExist (packets h).flow created).lookup f = some later :=
      ⟨attr, BpfMap.HashMap.lookup_updateNoExist_of_lookup_eq_some hattr created⟩
    refine ⟨?_, ?_, ?_, ?_⟩
    · intro f attr hattr
      rcases eq_or_ne f (packets h).flow with rfl | hne
      · rw [flowMap_setMap,
          BpfMap.HashMap.lookup_updateNoExist_self_of_canCreate hcreate] at hattr
        obtain rfl : created = attr := Option.some.inj hattr
        exact (accounts_newFlowAttribute hconsistent habsent).setMap _
      · rw [flowMap_setMap, BpfMap.HashMap.lookup_updateNoExist_of_ne _ _ hne] at hattr
        exact (hconsistent.entry f attr hattr).setMap _
    · intro other hpc
      obtain ⟨attr, hattr⟩ := hconsistent.known other hpc
      exact hkept hattr
    · intro other hpc
      obtain ⟨attr, hattr⟩ := (hconsistent.tried other hpc).resolve_right hroom
      exact Or.inl (hkept hattr)
    · intro other hpc
      exact absurd (hconsistent.gaveUp other hpc).2 hroom
  · rw [BpfMap.HashMap.updateNoExist_of_not_canCreate hcreate]
    exact hconsistent

/-- The last step of a handler. -/
theorem consistent_account (hconsistent : Consistent packets state)
    (hpc : state.pcs h = .account) :
    Consistent packets ((state.setMap (state.flowMap.modify (packets h).flow
      (recordPacket (packets h).frame.tcpHdr (packets h).frame.ipHdr.packetLength
        (packets h).ktime))).moveTo h .done) := by
  set record := recordPacket (packets h).frame.tcpHdr (packets h).frame.ipHdr.packetLength
    (packets h).ktime with hrecord
  obtain ⟨old, hold⟩ := hconsistent.known h (Or.inl hpc)
  have hnotDone : state.pcs h ≠ .done := by
    rw [hpc]
    decide
  have hself : (state.flowMap.modify (packets h).flow record).lookup (packets h).flow =
      some (record old) := by
    rw [BpfMap.HashMap.lookup_modify_self, hold]
    rfl
  have hlookup (f : Flow) : (state.flowMap.modify (packets h).flow record).lookup f = none ↔
      state.flowMap.lookup f = none := by
    rw [BpfMap.HashMap.lookup_eq_none_iff, BpfMap.HashMap.lookup_eq_none_iff,
      BpfMap.HashMap.keys_modify]
  have hkept {f : Flow} {attr : FlowAttribute} (hattr : state.flowMap.lookup f = some attr) :
      ∃ later, (state.flowMap.modify (packets h).flow record).lookup f = some later := by
    apply Option.ne_none_iff_exists'.mp
    rw [ne_eq, hlookup, hattr]
    exact Option.some_ne_none attr
  refine ⟨?_, ?_, ?_, ?_⟩
  · intro f attr hattr
    rcases eq_or_ne f (packets h).flow with rfl | hne
    · rw [flowMap_moveTo, flowMap_setMap, hself] at hattr
      obtain rfl : record old = attr := Option.some.inj hattr
      exact accounts_recordPacket hnotDone ((hconsistent.entry _ old hold).setMap _)
    · rw [flowMap_moveTo, flowMap_setMap, BpfMap.HashMap.lookup_modify_of_ne _ _ hne] at hattr
      have haccounts := hconsistent.entry f attr hattr
      have hdone : doneHandlers packets (state.moveTo h .done) f = doneHandlers packets state f :=
        doneHandlers_moveTo_of_flow_ne (Ne.symm hne)
      refine ⟨?_, ?_, haccounts.dstPort⟩
      · exact haccounts.numPacket.trans (by rw [← hdone]; rfl)
      · exact haccounts.headerLength.trans (by rw [← hdone]; rfl)
  · intro other hother
    rcases eq_or_ne other h with rfl | hne
    · exact ⟨record old, hself⟩
    · rw [pcs_moveTo_of_ne _ h hne, pcs_setMap] at hother
      obtain ⟨attr, hattr⟩ := hconsistent.known other hother
      exact hkept hattr
  · intro other hother
    rcases eq_or_ne other h with rfl | hne
    · rw [pcs_moveTo_self] at hother
      cases hother
    · rw [pcs_moveTo_of_ne _ h hne, pcs_setMap] at hother
      rcases hconsistent.tried other hother with ⟨attr, hattr⟩ | hfull
      · exact Or.inl (hkept hattr)
      · exact Or.inr hfull
  · intro other hother
    rcases eq_or_ne other h with rfl | hne
    · rw [pcs_moveTo_self] at hother
      cases hother
    · rw [pcs_moveTo_of_ne _ h hne, pcs_setMap] at hother
      obtain ⟨habsent, hfull⟩ := hconsistent.gaveUp other hother
      exact ⟨(hlookup _).mpr habsent, hfull⟩

theorem consistent_step (hconsistent : Consistent packets state) (h : Fin n) :
    Consistent packets (state.step packets h) := by
  unfold step
  cases hpc : state.pcs h with
  | done => exact hconsistent
  | gaveUp => exact hconsistent
  | account => exact consistent_account hconsistent hpc
  | lookup =>
    have hold : state.pcs h ≠ .done := by simp [hpc]
    cases hattr : state.flowMap.lookup (packets h).flow with
    | some attr =>
      simp only [hattr]
      exact consistent_moveTo hconsistent hold (by decide) (fun _ ↦ ⟨attr, hattr⟩) (by simp)
        (by simp)
    | none =>
      simp only [hattr]
      exact consistent_moveTo hconsistent hold (by decide) (by simp) (by simp) (by simp)
  | recheck =>
    have hold : state.pcs h ≠ .done := by simp [hpc]
    cases hattr : state.flowMap.lookup (packets h).flow with
    | some attr =>
      simp only [hattr]
      exact consistent_moveTo hconsistent hold (by decide) (fun _ ↦ ⟨attr, hattr⟩) (by simp)
        (by simp)
    | none =>
      have hfull : state.Full := by
        apply (hconsistent.tried h hpc).resolve_left
        simp [hattr]
      simp only [hattr]
      exact consistent_moveTo hconsistent hold (by decide) (by simp) (by simp)
        (fun _ ↦ ⟨hattr, hfull⟩)
  | create =>
    have hcreated := consistent_updateNoExist (h := h) hconsistent
    apply consistent_moveTo hcreated (by simp [hpc]) (by decide) (by simp) _ (by simp)
    intro _
    -- After the creation the flow has an entry, or the map was full.
    cases hattr : (state.flowMap.updateNoExist (packets h).flow
        (newFlowAttribute (packets h).frame.tcpHdr (packets h).ktime)).lookup (packets h).flow with
    | some attr => exact Or.inl ⟨attr, hattr⟩
    | none =>
      right
      have hfull := (BpfMap.HashMap.full_of_lookup_updateNoExist_eq_none hattr).1
      have hcreate : ¬ state.flowMap.CanCreate (packets h).flow :=
        fun hcreate ↦ absurd hcreate.2 (by rw [hfull]; exact lt_irrefl _)
      unfold Full
      rw [flowMap_setMap, BpfMap.HashMap.updateNoExist_of_not_canCreate hcreate]
      exact hfull

/-- A step leaves an entry as it is, or records one packet in it. -/
theorem lookup_step {f : Flow} {attr : FlowAttribute}
    (hattr : state.flowMap.lookup f = some attr) (h : Fin n) :
    (state.step packets h).flowMap.lookup f = some attr ∨
      state.pcs h = .account ∧ (packets h).flow = f ∧
        (state.step packets h).flowMap.lookup f =
          some (recordPacket (packets h).frame.tcpHdr (packets h).frame.ipHdr.packetLength
            (packets h).ktime attr) := by
  unfold step
  cases hpc : state.pcs h with
  | done => exact Or.inl hattr
  | gaveUp => exact Or.inl hattr
  | lookup =>
    left
    simp only
    split <;> exact hattr
  | recheck =>
    left
    simp only
    split <;> exact hattr
  | create =>
    left
    exact BpfMap.HashMap.lookup_updateNoExist_of_lookup_eq_some hattr _
  | account =>
    rcases eq_or_ne f (packets h).flow with rfl | hne
    · right
      refine ⟨rfl, rfl, ?_⟩
      rw [flowMap_moveTo, flowMap_setMap, BpfMap.HashMap.lookup_modify_self, hattr]
      rfl
    · left
      rw [flowMap_moveTo, flowMap_setMap, BpfMap.HashMap.lookup_modify_of_ne _ _ hne]
      exact hattr

theorem pcs_step_of_ne {other : Fin n} (hne : other ≠ h) :
    (state.step packets h).pcs other = state.pcs other := by
  unfold step
  cases state.pcs h with
  | done => rfl
  | gaveUp => rfl
  | account => exact pcs_moveTo_of_ne _ h hne _
  | create => exact pcs_moveTo_of_ne _ h hne _
  | lookup =>
    simp only
    split <;> exact pcs_moveTo_of_ne _ h hne _
  | recheck =>
    simp only
    split <;> exact pcs_moveTo_of_ne _ h hne _

/-- A handler that gave up stays there. -/
theorem gaveUp_step (hpc : state.pcs h = .gaveUp) (other : Fin n) :
    (state.step packets other).pcs h = .gaveUp := by
  rcases eq_or_ne h other with rfl | hne
  · unfold step
    rw [hpc]
    exact hpc
  · rw [pcs_step_of_ne hne]
    exact hpc

/-! ## One handler alone -/

/-- Four steps of one handler with nothing in between are `update_flow_attribute`. -/
theorem flowMap_run_alone (hpc : state.pcs h = .lookup) :
    (Interleaving.run (step packets) state [h, h, h, h]).flowMap =
      updateFlowAttribute state.flowMap (packets h).flow (packets h).frame.tcpHdr
        (packets h).frame.ipHdr.packetLength (packets h).ktime := by
  set packet := packets h with hpacket
  cases hattr : state.flowMap.lookup packet.flow with
  | some attr =>
    rw [updateFlowAttribute_of_lookup_eq_some hattr]
    simp [step, hpc, hattr, ← hpacket]
  | none =>
    set created := state.flowMap.updateNoExist packet.flow
      (newFlowAttribute packet.frame.tcpHdr packet.ktime) with hcreated
    have hcreate : createFlow state.flowMap packet.flow packet.frame.tcpHdr packet.ktime =
        created := createFlow_of_lookup_eq_none hattr _ _
    cases hagain : created.lookup packet.flow with
    | some attr =>
      simp [step, hpc, hattr, ← hpacket, ← hcreated, hagain, updateFlowAttribute, hcreate]
    | none =>
      simp [step, hpc, hattr, ← hpacket, ← hcreated, hagain, updateFlowAttribute, hcreate]

end

/-! ## All interleavings -/

theorem consistent_run (packets : Fin n → AcceptedPacket) (schedule : List (Fin n)) :
    Consistent packets (Interleaving.run (step packets) (initial n) schedule) := by
  have hstep : ∀ state h, Consistent packets state → Consistent packets (step packets state h) :=
    fun _ h hstate ↦ consistent_step hstate h
  exact Interleaving.run_invariant (step packets) hstep (consistent_initial packets) schedule

/-- Sixty bytes are the longest TCP header. -/
theorem headerSum_le (packets : Fin n → AcceptedPacket) (handlers : Finset (Fin n)) :
    headerSum packets handlers ≤ n * 60 := by
  have hterm : ∀ h ∈ handlers, 4 * (packets h).frame.tcpHdr.doff.toNat ≤ 60 := by
    intro h _
    have hdoff := (packets h).frame.tcpHdr.doff.isLt
    omega
  calc
    headerSum packets handlers ≤ handlers.card * 60 := Finset.sum_le_card_nsmul _ _ _ hterm
    _ ≤ n * 60 := Nat.mul_le_mul_right 60 (by simpa using Finset.card_le_univ handlers)

/-- Exact accounting.  In every reachable state each entry has counted exactly the packets of its
flow that were recorded, no step replaces an entry by a fresh one, and a flow with a handler that
gave up has no recorded packet at all. -/
theorem accounting {n : ℕ} (hn : n < 2 ^ 57) (packets : Fin n → AcceptedPacket)
    (schedule : List (Fin n)) :
    let reached := Interleaving.run (step packets) (initial n) schedule
    (∀ f attr, reached.flowMap.lookup f = some attr →
      attr.numPacket.toInt = (doneHandlers packets reached f).card ∧
        attr.headerLength.toInt = headerSum packets (doneHandlers packets reached f) ∧
        attr.dstPort = dstPortOf f) ∧
    (∀ f attr h, reached.flowMap.lookup f = some attr →
      (reached.step packets h).flowMap.lookup f = some attr ∨
        reached.pcs h = .account ∧ (packets h).flow = f ∧
          (reached.step packets h).flowMap.lookup f =
            some (recordPacket (packets h).frame.tcpHdr (packets h).frame.ipHdr.packetLength
              (packets h).ktime attr)) ∧
    ∀ h other, reached.pcs h = .gaveUp → (packets other).flow = (packets h).flow →
      ∀ later, (Interleaving.run (step packets) reached later).pcs other ≠ .done := by
  intro reached
  have hconsistent : Consistent packets reached := consistent_run packets schedule
  refine ⟨?_, ?_, ?_⟩
  · intro f attr hattr
    have haccounts := hconsistent.entry f attr hattr
    have hcard : (doneHandlers packets reached f).card ≤ n := by
      simpa using Finset.card_le_univ (doneHandlers packets reached f)
    have hsum := headerSum_le packets (doneHandlers packets reached f)
    refine ⟨?_, ?_, haccounts.dstPort⟩
    · rw [haccounts.numPacket, toInt_ofNat_of_lt (by omega)]
    · rw [haccounts.headerLength, toInt_ofNat_of_lt (by omega)]
  · intro f attr h hattr
    exact lookup_step hattr h
  · intro h other hgaveUp hflow later hdone
    have hlater : Consistent packets (Interleaving.run (step packets) reached later) := by
      have hsplit := Interleaving.run_append (step packets) (initial n) schedule later
      rw [← hsplit]
      exact consistent_run packets (schedule ++ later)
    have hstill : (Interleaving.run (step packets) reached later).pcs h = .gaveUp := by
      have hstep : ∀ (state : Handling n) next, state.pcs h = .gaveUp →
          (step packets state next).pcs h = .gaveUp := fun _ next hpc ↦ gaveUp_step hpc next
      exact Interleaving.run_invariant (step packets) hstep hgaveUp later
    -- The flow would have an entry and none.
    obtain ⟨attr, hattr⟩ := hlater.known other (Or.inr hdone)
    have habsent := (hlater.gaveUp h hstill).1
    rw [hflow, habsent] at hattr
    cases hattr

/-- Two handlers of one new flow that both find it absent. -/
theorem accounting_two_handlers :
    let packet (totLen : BitVec 16) : AcceptedPacket :=
      { frame := hostFrame 7 totLen false
        ktime := ⟨9, 9, 9, 9, 9⟩
        flow := hostFlow 7
        accepted := flowTuple_hostFrame 7 totLen false
        monitored := monitored_hostFlow 7 }
    let packets : Fin 2 → AcceptedPacket := ![packet 40, packet 60]
    let reached := Interleaving.run (step packets) (initial 2) [0, 1, 0, 1, 0, 1, 1, 0]
    ∀ f attr, reached.flowMap.lookup f = some attr →
      attr.numPacket.toInt = (doneHandlers packets reached f).card := by
  intro packet packets reached f attr hattr
  exact ((accounting (by decide) packets [0, 1, 0, 1, 0, 1, 1, 0]).1 f attr hattr).1

end Handling

end NNeBPF

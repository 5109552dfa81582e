import NNeBPF.Library.Simulation
import NNeBPF.Xdp.Features
import NNeBPF.Xdp.PortReuse

/-!
# Handlers as sequential updates

`update_flow_attribute` takes up to four map calls, and handlers on several CPUs interleave between
them.  All but the last call look or create an entry that counts nothing, so a packet takes effect
where its handler records it: apart from the largest gap, an entry is what sequential updates make
of the recorded packets in this order.

The largest gap is different.  The handler that creates an entry need not be the one that records
first, and then the gap between the two is counted.  All other features of an entry do not depend on
the schedule at all.
-/

namespace NNeBPF

/-- An entry without its largest gap. -/
def FlowAttribute.timeless (attr : FlowAttribute) : FlowAttribute := { attr with maxDuration := 0 }

/-! ## Entries without their largest gap -/

section

variable {left right : FlowAttribute}

/-- Recording a packet reads the largest gap for the largest gap only. -/
theorem timeless_record (packet : Arrival) (h : left.timeless = right.timeless) :
    (packet.record left).timeless = (packet.record right).timeless := by
  have hstep (attr : FlowAttribute) :
      (packet.record attr).timeless = (packet.record attr.timeless).timeless := rfl
  rw [hstep left, hstep right, h]

theorem timeless_resume (h : left.timeless = right.timeless) (packets : List Arrival) :
    (resume left packets).timeless = (resume right packets).timeless := by
  induction packets generalizing left right with
  | nil => exact h
  | cons packet packets ih => exact ih (timeless_record packet h)

/-- It makes no difference for the rest which packet of a flow has created the entry. -/
theorem timeless_resume_newEntry {f : Flow} {creator : Arrival} {packets : List Arrival}
    (hcreator : creator.belongsTo f = true)
    (hpackets : ∀ packet ∈ packets, packet.belongsTo f = true) (hne : packets ≠ []) :
    some (resume creator.newEntry packets).timeless =
      (replay packets).map FlowAttribute.timeless := by
  cases packets with
  | nil => exact absurd rfl hne
  | cons first later =>
    have hport : creator.newEntry.dstPort = first.newEntry.dstPort := by
      rw [dstPort_newEntry hcreator, dstPort_newEntry (hpackets first List.mem_cons_self)]
    -- Of a new entry only the port and the time depend on the packet, and the time is overwritten.
    have hstep (packet : Arrival) : (first.record packet.newEntry).timeless =
        (first.record { initFlowAttribute .zero with
          dstPort := packet.newEntry.dstPort }).timeless := rfl
    have hfirst : (first.record creator.newEntry).timeless =
        (first.record first.newEntry).timeless := by
      rw [hstep, hstep, hport]
    exact congrArg some (timeless_resume hfirst later)

end

namespace Handling

variable {n : ℕ}

/-- The packet of a handler as an arriving frame; the network maps play no part. -/
def arrivalOf (nn : NnMaps) (packet : AcceptedPacket) : Arrival := ⟨packet.frame, packet.ktime, nn⟩

/-- The handlers that record their packets in a run, in the order in which they do. -/
def recorders (packets : Fin n → AcceptedPacket) (state : Handling n) (schedule : List (Fin n)) :
    List (Fin n) :=
  Interleaving.trace (step packets)
    (fun reached h ↦ if reached.pcs h = .account then [h] else []) state schedule

/-- The packets of `f` that are recorded by the given handlers. -/
def recordedBy (packets : Fin n → AcceptedPacket) (nn : NnMaps) (f : Flow)
    (order : List (Fin n)) : List Arrival :=
  (order.filter fun h ↦ (packets h).flow = f).map fun h ↦ arrivalOf nn (packets h)

theorem belongsTo_arrivalOf (nn : NnMaps) (packet : AcceptedPacket) :
    (arrivalOf nn packet).belongsTo packet.flow = true :=
  belongsTo_iff.mpr ⟨packet.accepted, packet.monitored⟩

/-! ## One step -/

section

variable {packets : Fin n → AcceptedPacket} {state : Handling n} {h : Fin n} {nn : NnMaps}
  {order : List (Fin n)}

theorem belongsTo_of_mem_recordedBy {f : Flow} {packet : Arrival}
    (hpacket : packet ∈ recordedBy packets nn f order) : packet.belongsTo f = true := by
  simp only [recordedBy, List.mem_map, List.mem_filter, decide_eq_true_eq] at hpacket
  obtain ⟨h, ⟨-, hflow⟩, heq⟩ := hpacket
  rw [← heq, ← hflow]
  exact belongsTo_arrivalOf nn (packets h)

theorem recordedBy_concat (f : Flow) :
    recordedBy packets nn f (order ++ [h]) =
      recordedBy packets nn f order ++
        if (packets h).flow = f then [arrivalOf nn (packets h)] else [] := by
  rw [recordedBy, List.filter_append, List.map_append, List.filter_singleton, recordedBy]
  by_cases hflow : (packets h).flow = f
  · simp [hflow]
  · simp [hflow]

/-- A handler is done when it has recorded its packet, and stays so. -/
theorem pcs_step_self_eq_done_iff :
    (state.step packets h).pcs h = .done ↔ state.pcs h = .account ∨ state.pcs h = .done := by
  unfold step
  cases hpc : state.pcs h with
  | done => simp [hpc]
  | gaveUp => simp [hpc]
  | account => simp
  | create => simp
  | lookup =>
    simp only
    split <;> simp
  | recheck =>
    simp only
    split <;> simp

variable (nn) in
/-- The last step of a handler records its packet in the entry of its flow. -/
theorem lookup_step_of_account (hpc : state.pcs h = .account) (f : Flow) :
    (state.step packets h).flowMap.lookup f =
      if (packets h).flow = f then (state.flowMap.lookup f).map (arrivalOf nn (packets h)).record
      else state.flowMap.lookup f := by
  unfold step
  simp only [hpc, flowMap_moveTo, flowMap_setMap]
  split_ifs with hflow
  · rw [← hflow]
    exact BpfMap.HashMap.lookup_modify_self _ _ _
  · exact BpfMap.HashMap.lookup_modify_of_ne _ _ (Ne.symm hflow)

/-- The looking steps change no map. -/
theorem flowMap_step_of_looking (haccount : state.pcs h ≠ .account)
    (hcreate : state.pcs h ≠ .create) : (state.step packets h).flowMap = state.flowMap := by
  unfold step
  cases hpc : state.pcs h with
  | account => exact absurd hpc haccount
  | create => exact absurd hpc hcreate
  | done => rfl
  | gaveUp => rfl
  | lookup =>
    simp only
    split <;> rfl
  | recheck =>
    simp only
    split <;> rfl

variable (nn) in
/-- An entry that a step brings into being is a new one of the handler's flow. -/
theorem eq_newEntry_of_step {f : Flow} {attr : FlowAttribute}
    (hbefore : state.flowMap.lookup f = none)
    (hafter : (state.step packets h).flowMap.lookup f = some attr) :
    state.pcs h ≠ .account ∧ (packets h).flow = f ∧
      attr = (arrivalOf nn (packets h)).newEntry := by
  by_cases haccount : state.pcs h = .account
  · rw [lookup_step_of_account nn haccount, hbefore, Option.map_none, ite_self] at hafter
    cases hafter
  · refine ⟨haccount, ?_⟩
    by_cases hcreate : state.pcs h = .create
    · have hmap : (state.step packets h).flowMap = state.flowMap.updateNoExist (packets h).flow
          (arrivalOf nn (packets h)).newEntry := by
        unfold step
        rw [hcreate]
        rfl
      rw [hmap] at hafter
      have hflow : (packets h).flow = f := by
        by_contra hne
        rw [BpfMap.HashMap.lookup_updateNoExist_of_ne _ _ (Ne.symm hne), hbefore] at hafter
        cases hafter
      subst hflow
      refine ⟨rfl, ?_⟩
      by_cases hroom : state.flowMap.CanCreate (packets h).flow
      · rw [BpfMap.HashMap.lookup_updateNoExist_self_of_canCreate hroom] at hafter
        exact (Option.some.inj hafter).symm
      · rw [BpfMap.HashMap.updateNoExist_of_not_canCreate hroom, hbefore] at hafter
        cases hafter
    · rw [flowMap_step_of_looking haccount hcreate, hbefore] at hafter
      cases hafter

/-! ## The invariant -/

variable (packets nn) in
/-- The recorders so far, and the entries as what they have made of entries of some creator. -/
structure Recorded (state : Handling n) (order : List (Fin n)) : Prop where
  nodup : order.Nodup
  done : ∀ h, h ∈ order ↔ state.pcs h = .done
  entry : ∀ f attr, state.flowMap.lookup f = some attr → ∃ h, (packets h).flow = f ∧
    attr = resume (arrivalOf nn (packets h)).newEntry (recordedBy packets nn f order)

theorem recorded_initial : Recorded packets nn (initial n) [] where
  nodup := List.nodup_nil
  done := by simp [initial]
  entry := by
    intro f attr hattr
    cases hattr

/-- A flow without an entry has no recorded packet. -/
theorem recordedBy_of_absent (hconsistent : Consistent packets state)
    (hdone : ∀ h, h ∈ order ↔ state.pcs h = .done) {f : Flow}
    (habsent : state.flowMap.lookup f = none) : recordedBy packets nn f order = [] := by
  rw [recordedBy, List.map_eq_nil_iff, List.filter_eq_nil_iff]
  intro h hmem hflow
  rw [decide_eq_true_eq] at hflow
  obtain ⟨attr, hattr⟩ := hconsistent.known h (Or.inr ((hdone h).mp hmem))
  rw [hflow, habsent] at hattr
  cases hattr

/-- With a recorded packet an entry is that of sequential updates, but for the largest gap. -/
theorem Recorded.timeless_eq (hrecorded : Recorded packets nn state order) {f : Flow}
    {attr : FlowAttribute} (hattr : state.flowMap.lookup f = some attr)
    (hne : recordedBy packets nn f order ≠ []) :
    ∃ whole, replay (recordedBy packets nn f order) = some whole ∧
      attr.timeless = whole.timeless := by
  obtain ⟨creator, hcreator, hentry⟩ := hrecorded.entry f attr hattr
  have hbelongs : (arrivalOf nn (packets creator)).belongsTo f = true := by
    rw [← hcreator]
    exact belongsTo_arrivalOf nn (packets creator)
  have hresume := timeless_resume_newEntry hbelongs
    (fun _ hmem ↦ belongsTo_of_mem_recordedBy hmem) hne
  rw [← hentry, eq_comm, Option.map_eq_some_iff] at hresume
  obtain ⟨whole, hwhole, htimeless⟩ := hresume
  exact ⟨whole, hwhole, htimeless.symm⟩

theorem nodup_recorders_step (hrecorded : Recorded packets nn state order) (h : Fin n) :
    (order ++ if state.pcs h = .account then [h] else []).Nodup := by
  split_ifs with haccount
  · have hnew : h ∉ order := by
      rw [hrecorded.done h, haccount]
      decide
    exact hrecorded.nodup.append (List.nodup_singleton h) (List.disjoint_singleton.mpr hnew)
  · rw [List.append_nil]
    exact hrecorded.nodup

theorem done_recorders_step (hrecorded : Recorded packets nn state order) (h other : Fin n) :
    other ∈ (order ++ if state.pcs h = .account then [h] else []) ↔
      (state.step packets h).pcs other = .done := by
  have hmem : other ∈ (order ++ if state.pcs h = .account then [h] else []) ↔
      state.pcs other = .done ∨ state.pcs h = .account ∧ other = h := by
    rw [List.mem_append, hrecorded.done other]
    split_ifs with haccount <;> simp [haccount]
  rw [hmem]
  rcases eq_or_ne other h with rfl | hne
  · rw [pcs_step_self_eq_done_iff, or_comm]
    simp
  · rw [pcs_step_of_ne hne]
    simp [hne]

/-- One step more, by what it does to the entry of `f`. -/
theorem recorded_step (hconsistent : Consistent packets state)
    (hrecorded : Recorded packets nn state order) (h : Fin n) :
    Recorded packets nn (state.step packets h)
      (order ++ if state.pcs h = .account then [h] else []) where
  nodup := nodup_recorders_step hrecorded h
  done := done_recorders_step hrecorded h
  entry := by
    intro f attr hattr
    cases hbefore : state.flowMap.lookup f with
    | none =>
      -- The handler has just created the entry.
      obtain ⟨haccount, hflow, hnew⟩ := eq_newEntry_of_step nn hbefore hattr
      refine ⟨h, hflow, ?_⟩
      rw [if_neg haccount, List.append_nil, recordedBy_of_absent hconsistent hrecorded.done hbefore]
      exact hnew
    | some old =>
      obtain ⟨creator, hcreator, hold⟩ := hrecorded.entry f old hbefore
      refine ⟨creator, hcreator, ?_⟩
      by_cases haccount : state.pcs h = .account
      · rw [lookup_step_of_account nn haccount, hbefore] at hattr
        rw [if_pos haccount, recordedBy_concat]
        split_ifs at hattr ⊢ with hflow
        · rw [resume, List.foldl_concat, ← resume, ← hold]
          exact (Option.some.inj hattr).symm
        · rw [List.append_nil, ← hold]
          exact (Option.some.inj hattr).symm
      · have hkept : (state.step packets h).flowMap.lookup f = some old :=
          (lookup_step hbefore h).resolve_right fun hstep ↦ haccount hstep.1
        rw [if_neg haccount, List.append_nil, ← hold]
        exact Option.some.inj (hattr.symm.trans hkept)

end

/-! ## All interleavings -/

section

variable (packets : Fin n → AcceptedPacket) (nn : NnMaps) (schedule : List (Fin n))

theorem recorders_concat (h : Fin n) :
    recorders packets (initial n) (schedule ++ [h]) =
      recorders packets (initial n) schedule ++
        if (Interleaving.run (step packets) (initial n) schedule).pcs h = .account then [h]
        else [] := by
  rw [recorders, Interleaving.trace_append, Interleaving.trace_cons, Interleaving.trace_nil,
    List.append_nil, recorders]

theorem recorded_run :
    Recorded packets nn (Interleaving.run (step packets) (initial n) schedule)
      (recorders packets (initial n) schedule) := by
  induction schedule using List.reverseRecOn with
  | nil => exact recorded_initial
  | append_singleton schedule h ih =>
    rw [recorders_concat, Interleaving.run_concat]
    exact recorded_step (consistent_run packets schedule) ih h

end

/-- In every interleaving each done handler has recorded its packet exactly once.  A flow that has a
recorded packet, or none of whose handlers is under way, has the entry that sequential updates with
the recorded packets make in the order of the recordings, but for the largest gap. -/
theorem handlers_linearize (packets : Fin n → AcceptedPacket) (nn : NnMaps)
    (schedule : List (Fin n)) :
    let state := Interleaving.run (step packets) (initial n) schedule
    let order := recorders packets (initial n) schedule
    order.Nodup ∧ (∀ h, h ∈ order ↔ state.pcs h = .done) ∧
      ∀ f, (recordedBy packets nn f order ≠ [] ∨
          ∀ h, (packets h).flow = f → state.pcs h = .done ∨ state.pcs h = .gaveUp) →
        (state.flowMap.lookup f).map FlowAttribute.timeless =
          (replay (recordedBy packets nn f order)).map FlowAttribute.timeless := by
  intro state order
  have hrecorded : Recorded packets nn state order := recorded_run packets nn schedule
  have hconsistent : Consistent packets state := consistent_run packets schedule
  refine ⟨hrecorded.nodup, hrecorded.done, ?_⟩
  intro f hwhole
  cases hattr : state.flowMap.lookup f with
  | none =>
    rw [recordedBy_of_absent hconsistent hrecorded.done hattr]
    rfl
  | some attr =>
    obtain ⟨creator, hcreator, -⟩ := hrecorded.entry f attr hattr
    have hne : recordedBy packets nn f order ≠ [] := by
      rcases hwhole with hne | hfinished
      · exact hne
      · -- The creator has recorded its packet: with an entry in place it cannot give up.
        have hcreatorDone : state.pcs creator = .done := by
          apply (hfinished creator hcreator).resolve_right
          intro hgaveUp
          have habsent := (hconsistent.gaveUp creator hgaveUp).1
          rw [hcreator, hattr] at habsent
          cases habsent
        have hmem : creator ∈ order := (hrecorded.done creator).mpr hcreatorDone
        apply List.ne_nil_of_mem
        exact List.mem_map_of_mem (List.mem_filter.mpr ⟨hmem, by simpa using hcreator⟩)
    obtain ⟨whole, hwholeEntry, htimeless⟩ := hrecorded.timeless_eq hattr hne
    rw [hwholeEntry, Option.map_some, Option.map_some, htimeless]

/-- Two packets of a new flow: the second one creates the entry, and the first one records first. -/
theorem handlers_linearize_hostFrame :
    let packet (totLen : BitVec 16) : AcceptedPacket :=
      { frame := hostFrame 7 totLen false
        ktime := ⟨9, 9, 9, 9, 9⟩
        flow := hostFlow 7
        accepted := flowTuple_hostFrame 7 totLen false
        monitored := monitored_hostFlow 7 }
    let packets : Fin 2 → AcceptedPacket := ![packet 40, packet 60]
    let schedule : List (Fin 2) := [0, 1, 1, 0, 0, 0, 1, 1]
    let nn := NnMaps.zero
    ((Interleaving.run (step packets) (initial 2) schedule).flowMap.lookup (hostFlow 7)).map
        FlowAttribute.timeless =
      (replay [arrivalOf nn (packets 0), arrivalOf nn (packets 1)]).map
        FlowAttribute.timeless := by
  intro packet packets schedule nn
  have horder : recordedBy packets nn (hostFlow 7) (recorders packets (initial 2) schedule) =
      [arrivalOf nn (packets 0), arrivalOf nn (packets 1)] := by
    have hrecorders : recorders packets (initial 2) schedule = [0, 1] := by decide +kernel
    have hflow (h : Fin 2) : (packets h).flow = hostFlow 7#16 := by
      fin_cases h <;> rfl
    rw [hrecorders]
    simp [recordedBy, hflow]
  have hwhole : ∀ h, (packets h).flow = hostFlow 7 →
      (Interleaving.run (step packets) (initial 2) schedule).pcs h = .done ∨
        (Interleaving.run (step packets) (initial 2) schedule).pcs h = .gaveUp := by
    decide +kernel
  rw [← horder]
  exact (handlers_linearize packets nn schedule).2.2 (hostFlow 7) (Or.inr hwhole)

/-! ## The schedule does not matter -/

/-- But for the largest gap the features are the same in any order of the packets. -/
theorem features_replay_of_perm {f : Flow} {left right : List Arrival} {a b : FlowAttribute}
    (hperm : left.Perm right) (hleft : ∀ packet ∈ left, packet.belongsTo f = true)
    (ha : replay left = some a) (hb : replay right = some b) {i : Fin 6} (hi : i ≠ 1) :
    a.features.get i = b.features.get i := by
  have hright : ∀ packet ∈ right, packet.belongsTo f = true :=
    fun packet hpacket ↦ hleft packet (hperm.mem_iff.mpr hpacket)
  have hlengths : unsignedLengths left = unsignedLengths right := by
    ext length
    simp only [unsignedLengths, Set.mem_ofPred_eq, hperm.mem_iff]
  obtain ⟨hmaxLeft, hminLeft⟩ := unsigned_extremes ha
  obtain ⟨hmaxRight, hminRight⟩ := unsigned_extremes hb
  rw [hlengths] at hmaxLeft hminLeft
  have hmax : a.maxPacketLength = b.maxPacketLength :=
    BitVec.eq_of_toNat_eq (hmaxLeft.unique hmaxRight)
  have hmin : a.minPacketLength = b.minPacketLength :=
    BitVec.eq_of_toNat_eq (hminLeft.unique hminRight)
  have hport : a.dstPort = b.dstPort := by rw [dstPort_replay hleft ha, dstPort_replay hright hb]
  have hheader : a.headerLength = b.headerLength := by
    rw [headerLength_replay ha, headerLength_replay hb, headerTotal, headerTotal,
      (hperm.map _).sum_eq]
  have hcount : a.numPacket = b.numPacket := by
    rw [numPacket_replay ha, numPacket_replay hb, hperm.length_eq]
  fin_cases i
  · exact hmax
  · exact absurd rfl hi
  · exact hmin
  · exact hport
  · exact hheader
  · exact hcount

theorem features_of_timeless_eq {a b : FlowAttribute} (h : a.timeless = b.timeless) {i : Fin 6}
    (hi : i ≠ 1) : a.features.get i = b.features.get i := by
  have hkept (attr : FlowAttribute) : attr.features.get i = attr.timeless.features.get i := by
    fin_cases i
    · rfl
    · exact absurd rfl hi
    · rfl
    · rfl
    · rfl
    · rfl
  rw [hkept a, hkept b, h]

/-- Two interleavings in which the same handlers record their packets leave the same features in the
entry of every flow with a recorded packet, but for the largest gap. -/
theorem features_of_schedule {packets : Fin n → AcceptedPacket} {left right : List (Fin n)}
    (hdone : ∀ h, (Interleaving.run (step packets) (initial n) left).pcs h = .done ↔
      (Interleaving.run (step packets) (initial n) right).pcs h = .done)
    {f : Flow} {a b : FlowAttribute}
    (ha : (Interleaving.run (step packets) (initial n) left).flowMap.lookup f = some a)
    (hb : (Interleaving.run (step packets) (initial n) right).flowMap.lookup f = some b)
    (hrecorded : ∃ h, (packets h).flow = f ∧
      (Interleaving.run (step packets) (initial n) left).pcs h = .done) {i : Fin 6} (hi : i ≠ 1) :
    a.features.get i = b.features.get i := by
  have hrunLeft := recorded_run packets NnMaps.zero left
  have hrunRight := recorded_run packets NnMaps.zero right
  have horders :
      (recorders packets (initial n) left).Perm (recorders packets (initial n) right) := by
    apply (List.perm_ext_iff_of_nodup hrunLeft.nodup hrunRight.nodup).mpr
    intro h
    rw [hrunLeft.done, hrunRight.done, hdone]
  have hperm : (recordedBy packets NnMaps.zero f (recorders packets (initial n) left)).Perm
      (recordedBy packets NnMaps.zero f (recorders packets (initial n) right)) :=
    (horders.filter _).map _
  obtain ⟨h, hflow, hpc⟩ := hrecorded
  have hmem : arrivalOf NnMaps.zero (packets h) ∈
      recordedBy packets NnMaps.zero f (recorders packets (initial n) left) :=
    List.mem_map_of_mem (List.mem_filter.mpr ⟨(hrunLeft.done h).mpr hpc, by simpa using hflow⟩)
  obtain ⟨wholeLeft, hwholeLeft, htimelessLeft⟩ :=
    hrunLeft.timeless_eq ha (List.ne_nil_of_mem hmem)
  obtain ⟨wholeRight, hwholeRight, htimelessRight⟩ :=
    hrunRight.timeless_eq hb (List.ne_nil_of_mem (hperm.mem_iff.mp hmem))
  calc
    a.features.get i = wholeLeft.features.get i := features_of_timeless_eq htimelessLeft hi
    _ = wholeRight.features.get i :=
      features_replay_of_perm hperm (fun _ hpacket ↦ belongsTo_of_mem_recordedBy hpacket)
        hwholeLeft hwholeRight hi
    _ = b.features.get i := (features_of_timeless_eq htimelessRight hi).symm

/-- Two schedules of two handlers, of which one lets the second packet create the entry. -/
theorem features_of_schedule_hostFrame :
    let packet (totLen : BitVec 16) (time : U64) : AcceptedPacket :=
      { frame := hostFrame 7 totLen false
        ktime := ⟨time, time, time, time, time⟩
        flow := hostFlow 7
        accepted := flowTuple_hostFrame 7 totLen false
        monitored := monitored_hostFlow 7 }
    let packets : Fin 2 → AcceptedPacket := ![packet 40 5, packet 60 9]
    let left := Interleaving.run (step packets) (initial 2) [0, 0, 0, 0, 1, 1]
    let right := Interleaving.run (step packets) (initial 2) [0, 1, 1, 0, 0, 0, 1, 1]
    ∃ a b, left.flowMap.lookup (hostFlow 7) = some a ∧ right.flowMap.lookup (hostFlow 7) = some b ∧
      (∀ i, i ≠ 1 → a.features.get i = b.features.get i) ∧
      a.features.get 1 = 4 ∧ b.features.get 1 = -4 := by
  intro packet packets left right
  have hdone : ∀ h, left.pcs h = .done ↔ right.pcs h = .done := by decide +kernel
  have hdurationLeft : (left.flowMap.lookup (hostFlow 7)).any
      (fun attr ↦ attr.features.get 1 == 4) = true := by decide +kernel
  have hdurationRight : (right.flowMap.lookup (hostFlow 7)).any
      (fun attr ↦ attr.features.get 1 == -4) = true := by decide +kernel
  obtain ⟨a, ha, hfour⟩ := (Option.any_eq_true _ _).mp hdurationLeft
  obtain ⟨b, hb, hminus⟩ := (Option.any_eq_true _ _).mp hdurationRight
  have hrecorded : ∃ h, (packets h).flow = hostFlow 7 ∧ left.pcs h = .done :=
    ⟨0, rfl, by decide +kernel⟩
  refine ⟨a, b, ha, hb, ?_, beq_iff_eq.mp hfour, beq_iff_eq.mp hminus⟩
  intro i hi
  exact features_of_schedule hdone ha hb hrecorded hi

end Handling

end NNeBPF

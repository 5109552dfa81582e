import NNeBPF.Control.Processes

/-!
# The maps that processes have open

A process writes only into maps that it has open, and it can open only those that have the names at
that moment.  The link of the attached program belongs to a process that has attached it, and stays
as long as this process goes on.
-/

namespace NNeBPF

open PinnedObjects (Store)
open PinnedObjects.Store (Evolves)

/-! ## Maps in use -/

/-- The `nn_parameters` of a loader that is starting up. -/
def LoaderPc.nnParametersId : LoaderPc → Option ℕ
  | .createNnIdx nnParameters _ => some nnParameters
  | .loadProgs ids _ _ | .fillProgs ids | .updateNnIdx ids | .attachXdp ids =>
    some ids.nnParameters
  | _ => none

/-- The `nn_idx` of a loader that is starting up. -/
def LoaderPc.nnIdxId : LoaderPc → Option ℕ
  | .loadProgs ids _ _ | .fillProgs ids | .updateNnIdx ids | .attachXdp ids => some ids.nnIdx
  | _ => none

/-- The `nn_parameters` of a run of `hot_updating` that still has calls to make. -/
def HotProcess.nnParametersId : HotProcess → Option ℕ
  | .getNnParameters | .calls _ _ .done => none
  | .getNnIdx nnParametersFd | .calls nnParametersFd _ _ => nnParametersFd

/-- The `nn_idx` of a run of `hot_updating` that still has calls to make. -/
def HotProcess.nnIdxId : HotProcess → Option ℕ
  | .getNnParameters | .getNnIdx _ | .calls _ _ .done => none
  | .calls _ nnIdxFd _ => nnIdxFd

/-- The process has attached a program with these maps. -/
def LoaderPc.HoldsLink (ids : NnMapIds) : LoaderPc → Prop
  | .wait own => own = ids
  | .removeNnParameters | .removeNnIdx | .destroy => True
  | _ => False

section

variable {stores : NnStores} {id : ℕ}

/-- A loader keeps its maps, or it gets the one that has the name then. -/
theorem nnParametersId_loaderNext (fails : LoaderCall → Bool) (attached : Option Attachment)
    (pc : LoaderPc)
    (h : (loaderNext fails attached stores pc).nnParametersId = some id) :
    pc.nnParametersId = some id ∨ (loaderStores fails stores pc).nnParameters.pin = some id := by
  cases pc <;> simp only [loaderNext, loaderStores] at h ⊢ <;> (try split_ifs at h ⊢) <;>
    first | exact Or.inl h | exact Or.inr h | cases h

theorem nnIdxId_loaderNext (fails : LoaderCall → Bool) (attached : Option Attachment)
    (pc : LoaderPc) (h : (loaderNext fails attached stores pc).nnIdxId = some id) :
    pc.nnIdxId = some id ∨ (loaderStores fails stores pc).nnIdx.pin = some id := by
  cases pc <;> simp only [loaderNext, loaderStores] at h ⊢ <;> (try split_ifs at h ⊢) <;>
    first | exact Or.inl h | exact Or.inr h | cases h

/-- A run keeps its descriptors, or it gets one of the map that has the name. -/
theorem nnParametersId_hotProcessStep (fails : MainCall → Bool) (net : Net) (run : HotProcess)
    (h : (hotProcessStep fails net stores run).1.nnParametersId = some id) :
    run.nnParametersId = some id ∨ stores.nnParameters.pin = some id := by
  cases run with
  | getNnParameters =>
    simp only [hotProcessStep, HotProcess.nnParametersId] at h
    split_ifs at h
    exact Or.inr h
  | getNnIdx nnParametersFd => exact Or.inl h
  | calls nnParametersFd nnIdxFd pc =>
    cases pc <;> first | exact Or.inl h | cases h

theorem nnIdxId_hotProcessStep (fails : MainCall → Bool) (net : Net) (run : HotProcess)
    (h : (hotProcessStep fails net stores run).1.nnIdxId = some id) :
    run.nnIdxId = some id ∨ stores.nnIdx.pin = some id := by
  cases run with
  | getNnParameters => cases h
  | getNnIdx nnParametersFd =>
    simp only [hotProcessStep, HotProcess.nnIdxId] at h
    split_ifs at h
    exact Or.inr h
  | calls nnParametersFd nnIdxFd pc =>
    cases pc <;> first | exact Or.inl h | cases h

end

namespace Processes

theorem forall_update {Pc : Type*} {pcs : ℕ → Pc} {idOf : Pc → Option ℕ} {among : ℕ → Prop}
    {pid : ℕ} {pc : Pc} (h : ∀ pid id, idOf (pcs pid) = some id → among id)
    (hpc : ∀ id, idOf pc = some id → among id) :
    ∀ other id, idOf (Function.update pcs pid pc other) = some id → among id :=
  (Function.forall_update_iff pcs fun _ pc ↦ ∀ id, idOf pc = some id → among id).mpr
    ⟨hpc, fun other _ ↦ h other⟩

/-- All maps that processes have open, before an attach and before the end of an update, are
among the given ones. -/
structure Uses (inParameters inIdx : ℕ → Prop) (state : Processes) : Prop where
  loaderParameters : ∀ pid id, (state.loaders pid).nnParametersId = some id → inParameters id
  loaderIdx : ∀ pid id, (state.loaders pid).nnIdxId = some id → inIdx id
  runParameters : ∀ uid id, (state.runs uid).nnParametersId = some id → inParameters id
  runIdx : ∀ uid id, (state.runs uid).nnIdxId = some id → inIdx id

section

variable {nets : ℕ → Net} {state : Processes} {inParameters inIdx : ℕ → Prop}

theorem Uses.mono {moreParameters moreIdx : ℕ → Prop} (h : Uses inParameters inIdx state)
    (hparameters : ∀ id, inParameters id → moreParameters id)
    (hidx : ∀ id, inIdx id → moreIdx id) : Uses moreParameters moreIdx state where
  loaderParameters := fun pid id hid ↦ hparameters id (h.loaderParameters pid id hid)
  loaderIdx := fun pid id hid ↦ hidx id (h.loaderIdx pid id hid)
  runParameters := fun uid id hid ↦ hparameters id (h.runParameters uid id hid)
  runIdx := fun uid id hid ↦ hidx id (h.runIdx uid id hid)

/-- With a call a process can get only the maps that have the names before or after it. -/
theorem uses_step (h : Uses inParameters inIdx state) (event : ProcessEvent)
    (hparameters : ∀ id, state.stores.nnParameters.pin = some id ∨
      (state.step nets event).stores.nnParameters.pin = some id → inParameters id)
    (hidx : ∀ id, state.stores.nnIdx.pin = some id ∨
      (state.step nets event).stores.nnIdx.pin = some id → inIdx id) :
    Uses inParameters inIdx (state.step nets event) := by
  cases event with
  | frame ktime frame => exact ⟨h.loaderParameters, h.loaderIdx, h.runParameters, h.runIdx⟩
  | loader pid fails =>
    refine ⟨?_, ?_, h.runParameters, h.runIdx⟩
    · apply forall_update h.loaderParameters
      intro id hid
      exact (nnParametersId_loaderNext fails _ _ hid).elim (h.loaderParameters pid id)
        fun hnew ↦ hparameters id (Or.inr hnew)
    · apply forall_update h.loaderIdx
      intro id hid
      exact (nnIdxId_loaderNext fails _ _ hid).elim (h.loaderIdx pid id)
        fun hnew ↦ hidx id (Or.inr hnew)
  | killLoader pid =>
    have hended : ∀ id, LoaderPc.ended.nnParametersId = some id → inParameters id := nofun
    have hendedIdx : ∀ id, LoaderPc.ended.nnIdxId = some id → inIdx id := nofun
    exact ⟨forall_update h.loaderParameters hended, forall_update h.loaderIdx hendedIdx,
      h.runParameters, h.runIdx⟩
  | hot uid fails =>
    refine ⟨h.loaderParameters, h.loaderIdx, ?_, ?_⟩
    · apply forall_update h.runParameters
      intro id hid
      exact (nnParametersId_hotProcessStep fails _ _ hid).elim (h.runParameters uid id)
        fun hnew ↦ hparameters id (Or.inl hnew)
    · apply forall_update h.runIdx
      intro id hid
      exact (nnIdxId_hotProcessStep fails _ _ hid).elim (h.runIdx uid id)
        fun hnew ↦ hidx id (Or.inl hnew)
  | killHot uid =>
    have hdone : ∀ id, (HotProcess.calls none none .done).nnParametersId = some id →
        inParameters id := nofun
    have hdoneIdx : ∀ id, (HotProcess.calls none none .done).nnIdxId = some id → inIdx id := nofun
    exact ⟨h.loaderParameters, h.loaderIdx, forall_update h.runParameters hdone,
      forall_update h.runIdx hdoneIdx⟩

end

/-! ## What a call does to a map -/

section

variable (stores : NnStores)

/-- A loader writes into no map but the `nn_idx` that it has open. -/
theorem evolves_loaderStores (fails : LoaderCall → Bool) (pc : LoaderPc) :
    Evolves none stores.nnParameters (loaderStores fails stores pc).nnParameters ∧
      Evolves pc.nnIdxId stores.nnIdx (loaderStores fails stores pc).nnIdx := by
  have htake (pinnedParameters pinnedIdx : Bool) (fd : Option ℕ) :
      Evolves none stores.nnParameters
          (stores.takeBack pinnedParameters pinnedIdx).nnParameters ∧
        Evolves fd stores.nnIdx (stores.takeBack pinnedParameters pinnedIdx).nnIdx := by
    cases pinnedParameters <;> cases pinnedIdx <;> constructor <;> constructor
  cases pc with
  | createNnParameters =>
    simp only [loaderStores]
    split_ifs
    · exact ⟨.same, .same⟩
    · exact ⟨.reuse _, .same⟩
  | createNnIdx nnParameters pinnedParameters =>
    simp only [loaderStores]
    split_ifs
    · exact htake _ _ _
    · exact ⟨.same, .reuse _⟩
  | loadProgs ids pinnedParameters pinnedIdx =>
    simp only [loaderStores]
    split_ifs
    · exact htake _ _ _
    · exact ⟨.same, .same⟩
  | updateNnIdx ids =>
    simp only [loaderStores]
    split_ifs
    · exact ⟨.same, .same⟩
    · exact ⟨.same, .write _⟩
  | removeNnParameters => exact ⟨.unpin, .same⟩
  | removeNnIdx => exact ⟨.same, .unpin⟩
  | _ => exact ⟨.same, .same⟩

/-- A run of `hot_updating` writes into no maps but those that it has open. -/
theorem evolves_hotProcessStep (fails : MainCall → Bool) (net : Net) (run : HotProcess) :
    Evolves run.nnParametersId stores.nnParameters
        (hotProcessStep fails net stores run).2.nnParameters ∧
      Evolves run.nnIdxId stores.nnIdx (hotProcessStep fails net stores run).2.nnIdx := by
  cases run with
  | getNnParameters => exact ⟨.same, .same⟩
  | getNnIdx nnParametersFd => exact ⟨.same, .same⟩
  | calls nnParametersFd nnIdxFd pc =>
    cases pc with
    | done =>
      have hsame : (hotProcessStep fails net stores (.calls nnParametersFd nnIdxFd .done)).2 =
          stores := by
        change stores.writeTo nnParametersFd nnIdxFd (stores.mapsOf nnParametersFd nnIdxFd) = stores
        simp only [NnStores.writeTo, NnStores.mapsOf, NnStores.maps, Store.writeTo_content]
      rw [hsame]
      exact ⟨.same, .same⟩
    | lookup => exact ⟨.write _, .write _⟩
    | updateParameters nnIdx => exact ⟨.write _, .write _⟩
    | updateIdx nnIdx => exact ⟨.write _, .write _⟩

variable {stores} {nets : ℕ → Net} {state : Processes} {inParameters inIdx : ℕ → Prop}

variable (nets) in
/-- A step writes only into maps that are in use. -/
theorem evolves_step (h : Uses inParameters inIdx state) (event : ProcessEvent) :
    ∃ fd fdIdx, (∀ id, fd = some id → inParameters id) ∧ (∀ id, fdIdx = some id → inIdx id) ∧
      Evolves fd state.stores.nnParameters (state.step nets event).stores.nnParameters ∧
      Evolves fdIdx state.stores.nnIdx (state.step nets event).stores.nnIdx := by
  cases event with
  | loader pid fails =>
    exact ⟨none, (state.loaders pid).nnIdxId, nofun, h.loaderIdx pid,
      evolves_loaderStores state.stores fails (state.loaders pid)⟩
  | hot uid fails =>
    exact ⟨(state.runs uid).nnParametersId, (state.runs uid).nnIdxId, h.runParameters uid,
      h.runIdx uid, evolves_hotProcessStep state.stores fails (nets uid) (state.runs uid)⟩
  | killLoader pid => exact ⟨none, none, nofun, nofun, .same, .same⟩
  | killHot uid => exact ⟨none, none, nofun, nofun, .same, .same⟩
  | frame ktime frame => exact ⟨none, none, nofun, nofun, .same, .same⟩

end

/-! ## The attached program -/

section

variable {nets : ℕ → Net} {state : Processes} {event : ProcessEvent} {attachment : Attachment}

/-- A link stays as long as its process goes on, and a new one needs a free interface. -/
theorem attached_step (h : (state.step nets event).attached = some attachment) :
    (∃ old, state.attached = some old ∧ old.pid = attachment.pid ∧ old.ids = attachment.ids ∧
      event ≠ .killLoader attachment.pid ∧
      ∀ fails, event = .loader attachment.pid fails → state.loaders attachment.pid ≠ .destroy) ∨
    ∃ fails, event = .loader attachment.pid fails ∧ fails .attachXdp = false ∧
      state.loaders attachment.pid = .attachXdp attachment.ids ∧ state.attached = none := by
  have hdetach {pid : ℕ} (hafter : detach pid state.attached = some attachment) :
      state.attached = some attachment ∧ attachment.pid ≠ pid := by
    simpa [detach, Option.filter_eq_some_iff] using hafter
  cases event with
  | hot uid fails =>
    refine Or.inl ⟨attachment, h, rfl, rfl, ?_, ?_⟩ <;> simp
  | killHot uid =>
    refine Or.inl ⟨attachment, h, rfl, rfl, ?_, ?_⟩ <;> simp
  | frame ktime frame =>
    obtain ⟨old, hold, heq⟩ := Option.map_eq_some_iff.mp h
    rw [← heq]
    refine Or.inl ⟨old, hold, rfl, rfl, ?_, ?_⟩ <;> simp
  | killLoader pid =>
    obtain ⟨hold, hne⟩ := hdetach h
    refine Or.inl ⟨attachment, hold, rfl, rfl, ?_, by simp⟩
    intro heq
    exact hne (ProcessEvent.killLoader.inj heq).symm
  | loader pid fails =>
    have hsame (hold : state.attached = some attachment)
        (hdestroy : state.loaders pid ≠ .destroy) :
        ∃ old, state.attached = some old ∧ old.pid = attachment.pid ∧ old.ids = attachment.ids ∧
          ProcessEvent.loader pid fails ≠ .killLoader attachment.pid ∧
          ∀ otherFails, ProcessEvent.loader pid fails = .loader attachment.pid otherFails →
            state.loaders attachment.pid ≠ .destroy := by
      refine ⟨attachment, hold, rfl, rfl, by simp, ?_⟩
      intro otherFails heq
      rwa [← (ProcessEvent.loader.inj heq).1]
    simp only [step] at h
    cases hpc : state.loaders pid with
    | attachXdp ids =>
      simp only [hpc, loaderAttached] at h
      split_ifs at h with hfails
      · exact Or.inl (hsame h (by simp [hpc]))
      · cases hbefore : state.attached with
        | none =>
          rw [hbefore, Option.none_or] at h
          obtain rfl : ⟨pid, ids, BpfMap.HashMap.empty⟩ = attachment := Option.some.inj h
          exact Or.inr ⟨fails, rfl, Bool.eq_false_of_not_eq_true hfails, hpc, rfl⟩
        | some old =>
          rw [hbefore, Option.some_or] at h
          rw [← hbefore]
          exact Or.inl (hsame (hbefore.trans h) (by simp [hpc]))
    | destroy =>
      simp only [hpc, loaderAttached] at h
      obtain ⟨hold, hne⟩ := hdetach h
      refine Or.inl ⟨attachment, hold, rfl, rfl, by simp, ?_⟩
      intro otherFails heq
      exact absurd (ProcessEvent.loader.inj heq).1.symm hne
    | _ =>
      simp only [hpc, loaderAttached] at h
      exact Or.inl (hsame h (by simp [hpc]))

theorem holdsLink_loaderNext {ids : NnMapIds} {pc : LoaderPc} (h : pc.HoldsLink ids)
    (hdestroy : pc ≠ .destroy) (fails : LoaderCall → Bool) (attached : Option Attachment)
    (stores : NnStores) : (loaderNext fails attached stores pc).HoldsLink ids := by
  cases pc with
  | wait own => trivial
  | removeNnParameters => trivial
  | removeNnIdx => trivial
  | destroy => exact absurd rfl hdestroy
  | _ => exact h.elim

/-- All maps exist, and the link of the attached program belongs to a process that has attached
it. -/
structure WellFormed (state : Processes) : Prop where
  uses : Uses (· < state.stores.nnParameters.next) (· < state.stores.nnIdx.next) state
  attached : ∀ attachment, state.attached = some attachment →
    attachment.ids.nnParameters < state.stores.nnParameters.next ∧
      attachment.ids.nnIdx < state.stores.nnIdx.next ∧
        (state.loaders attachment.pid).HoldsLink attachment.ids

theorem Initial.uses (h : Initial state) (inParameters inIdx : ℕ → Prop) :
    Uses inParameters inIdx state where
  loaderParameters := by
    intro pid id hid
    rw [h.loaders pid] at hid
    cases hid
  loaderIdx := by
    intro pid id hid
    rw [h.loaders pid] at hid
    cases hid
  runParameters := by
    intro uid id hid
    rw [h.runs uid] at hid
    cases hid
  runIdx := by
    intro uid id hid
    rw [h.runs uid] at hid
    cases hid

theorem Initial.wellFormed (h : Initial state) : WellFormed state where
  uses := h.uses _ _
  attached := by
    intro attachment hattached
    rw [h.attached] at hattached
    cases hattached

theorem loaders_step_of_ne {pid : ℕ}
    (hloader : ∀ fails, event ≠ .loader pid fails) (hkill : event ≠ .killLoader pid) :
    (state.step nets event).loaders pid = state.loaders pid := by
  cases event with
  | loader other fails =>
    have hne : pid ≠ other := fun heq ↦ hloader fails (by rw [heq])
    exact Function.update_of_ne hne _ _
  | killLoader other =>
    have hne : pid ≠ other := fun heq ↦ hkill (by rw [heq])
    exact Function.update_of_ne hne _ _
  | hot uid fails => rfl
  | killHot uid => rfl
  | frame ktime frame => rfl

theorem WellFormed.step (h : WellFormed state) (event : ProcessEvent) :
    WellFormed (state.step nets event) := by
  obtain ⟨fd, fdIdx, -, -, hparameters, hidx⟩ := evolves_step nets h.uses event
  have hnext := hparameters.next_le
  have hnextIdx := hidx.next_le
  have huses : Uses (· < (state.step nets event).stores.nnParameters.next)
      (· < (state.step nets event).stores.nnIdx.next) state :=
    h.uses.mono (fun id hid ↦ hid.trans_le hnext) fun id hid ↦ hid.trans_le hnextIdx
  refine ⟨uses_step huses event ?_ ?_, ?_⟩
  · rintro id (hpin | hpin)
    · exact (state.stores.nnParameters.pin_lt id hpin).trans_le hnext
    · exact Store.pin_lt _ id hpin
  · rintro id (hpin | hpin)
    · exact (state.stores.nnIdx.pin_lt id hpin).trans_le hnextIdx
    · exact Store.pin_lt _ id hpin
  · intro attachment hattached
    rcases attached_step hattached with
      ⟨old, hold, hpid, hids, hkill, hdestroy⟩ | ⟨fails, rfl, hfails, hpc, hnone⟩
    · obtain ⟨hlt, hltIdx, hholds⟩ := h.attached old hold
      rw [hpid, hids] at hholds
      rw [hids] at hlt hltIdx
      refine ⟨hlt.trans_le hnext, hltIdx.trans_le hnextIdx, ?_⟩
      by_cases hown : ∃ fails, event = .loader attachment.pid fails
      · obtain ⟨fails, rfl⟩ := hown
        simp only [Processes.step, Function.update_self]
        exact holdsLink_loaderNext hholds (hdestroy fails rfl) _ _ _
      · rw [loaders_step_of_ne (fun fails heq ↦ hown ⟨fails, heq⟩) hkill]
        exact hholds
    · refine ⟨?_, ?_, ?_⟩
      · exact huses.loaderParameters attachment.pid _ (by rw [hpc]; rfl)
      · exact huses.loaderIdx attachment.pid _ (by rw [hpc]; rfl)
      · simp only [Processes.step, Function.update_self, hpc, loaderNext, hfails, hnone,
          Option.isSome_none, Bool.or_self, Bool.false_eq_true, if_false]
        rfl

theorem wellFormed_run (h : WellFormed state) (events : List ProcessEvent) :
    WellFormed (Interleaving.run (Processes.step nets) state events) :=
  Interleaving.run_invariant (Processes.step nets) (fun _ event hreached ↦ hreached.step event) h
    events

variable (nets) in
theorem attached_step_of_ne (h : state.attached = some attachment)
    (hloader : ∀ fails, event ≠ .loader attachment.pid fails)
    (hkill : event ≠ .killLoader attachment.pid) :
    ∃ flowMap, (state.step nets event).attached = some { attachment with flowMap := flowMap } := by
  have hdetach {pid : ℕ} (hne : attachment.pid ≠ pid) :
      detach pid state.attached = some attachment := by
    rw [h, detach, Option.filter_some, if_pos (by simpa using hne)]
  cases event with
  | hot uid fails => exact ⟨attachment.flowMap, h⟩
  | killHot uid => exact ⟨attachment.flowMap, h⟩
  | frame ktime frame => exact ⟨_, congrArg (Option.map (process state.stores ktime frame)) h⟩
  | killLoader pid =>
    exact ⟨attachment.flowMap, hdetach fun heq ↦ hkill (congrArg ProcessEvent.killLoader heq.symm)⟩
  | loader pid fails =>
    have hne : attachment.pid ≠ pid := fun heq ↦ hloader fails (by rw [heq])
    refine ⟨attachment.flowMap, ?_⟩
    simp only [step]
    cases state.loaders pid with
    | attachXdp ids =>
      simp only [loaderAttached, h, Option.some_or, ite_self]
    | destroy => exact hdetach hne
    | _ => exact h

/-- Without steps of its process the program stays on the interface. -/
theorem attached_run {events : List ProcessEvent} (h : state.attached = some attachment)
    (hloader : ∀ fails, .loader attachment.pid fails ∉ events)
    (hkill : .killLoader attachment.pid ∉ events) :
    ∃ flowMap, (Interleaving.run (Processes.step nets) state events).attached =
      some { attachment with flowMap := flowMap } := by
  have hstep : ∀ (reached : Processes) event,
      ((∀ fails, event ≠ .loader attachment.pid fails) ∧
        event ≠ .killLoader attachment.pid) →
      (∃ flowMap, reached.attached = some { attachment with flowMap := flowMap }) →
      ∃ flowMap, (reached.step nets event).attached =
        some { attachment with flowMap := flowMap } := by
    rintro reached event ⟨hother, hotherKill⟩ ⟨flowMap, hreached⟩
    have hafter := attached_step_of_ne nets hreached hother hotherKill
    exact hafter
  apply Interleaving.run_induction (Processes.step nets) hstep ⟨attachment.flowMap, h⟩
  intro event hevent
  constructor
  · rintro fails rfl
    exact hloader fails hevent
  · rintro rfl
    exact hkill hevent

end

end Processes

end NNeBPF

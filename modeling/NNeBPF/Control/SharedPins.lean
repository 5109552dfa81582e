import NNeBPF.Control.LostPins

/-!
# Names that are kept

The program on the interface reads the maps that its loader has found or created, and a run of
`hot_updating` or a second loader finds maps by their names.  As long as names are removed only by a
process that is alone, these are the same maps.  So updates reach the running classifier, and so
does the start index of a second loader that cannot attach.
-/

namespace NNeBPF

open PinnedObjects (Store)

/-- The next call of the process takes a name away. -/
def LoaderPc.Removes (fails : LoaderCall → Bool) : LoaderPc → Prop
  | .createNnIdx _ pinnedParameters => fails .loadObject = true ∧ pinnedParameters = true
  | .loadProgs _ pinnedParameters pinnedIdx =>
    fails .loadObject = true ∧ (pinnedParameters = true ∨ pinnedIdx = true)
  | .removeNnParameters | .removeNnIdx => True
  | _ => False

/-- The process removes a name next, whether or not calls fail. -/
def LoaderPc.atCleanup : LoaderPc → Bool
  | .removeNnParameters | .removeNnIdx => true
  | _ => false

namespace Processes

/-- A name is taken away only by a process that is alone: no other one starts up or updates, and
no program of another one is attached. -/
def Considerate (state : Processes) (event : ProcessEvent) : Prop :=
  ∀ pid fails, event = .loader pid fails → (state.loaders pid).Removes fails →
    (∀ other, other ≠ pid → (state.loaders other).nnParametersId = none ∧
      (state.loaders other).nnIdxId = none) ∧
    (∀ uid, (state.runs uid).nnParametersId = none ∧ (state.runs uid).nnIdxId = none) ∧
    ∀ attachment, state.attached = some attachment → attachment.pid = pid

/-- All processes mean the maps under the names. -/
structure Shared (state : Processes) : Prop where
  uses : Uses (fun id ↦ state.stores.nnParameters.pin = some id)
    (fun id ↦ state.stores.nnIdx.pin = some id) state
  attached : ∀ attachment, state.attached = some attachment →
    state.loaders attachment.pid = .wait attachment.ids →
      state.stores.nnParameters.pin = some attachment.ids.nnParameters ∧
        state.stores.nnIdx.pin = some attachment.ids.nnIdx

section

variable {nets : ℕ → Net} {state : Processes} {attachment : Attachment}

theorem pin_loaderStores {stores : NnStores} {fails : LoaderCall → Bool} {pc : LoaderPc}
    (hkept : ¬ pc.Removes fails) :
    (∀ id, stores.nnParameters.pin = some id →
      (loaderStores fails stores pc).nnParameters.pin = some id) ∧
    ∀ id, stores.nnIdx.pin = some id → (loaderStores fails stores pc).nnIdx.pin = some id := by
  cases pc with
  | createNnParameters =>
    simp only [loaderStores]
    split_ifs
    · exact ⟨fun _ ↦ id, fun _ ↦ id⟩
    · exact ⟨fun _ hpin ↦ congrArg some (Store.reuseId_of_pin hpin), fun _ ↦ id⟩
  | createNnIdx nnParameters pinnedParameters =>
    simp only [loaderStores]
    split_ifs with hload
    · have hnone : pinnedParameters = false :=
        Bool.eq_false_of_not_eq_true fun hpinned ↦ hkept ⟨hload, hpinned⟩
      rw [hnone]
      exact ⟨fun _ ↦ id, fun _ ↦ id⟩
    · exact ⟨fun _ ↦ id, fun _ hpin ↦ congrArg some (Store.reuseId_of_pin hpin)⟩
  | loadProgs ids pinnedParameters pinnedIdx =>
    simp only [loaderStores]
    split_ifs with hload
    · have hnone : pinnedParameters = false ∧ pinnedIdx = false := by
        constructor <;> apply Bool.eq_false_of_not_eq_true <;> intro hpinned
        · exact hkept ⟨hload, Or.inl hpinned⟩
        · exact hkept ⟨hload, Or.inr hpinned⟩
      rw [hnone.1, hnone.2]
      exact ⟨fun _ ↦ id, fun _ ↦ id⟩
    · exact ⟨fun _ ↦ id, fun _ ↦ id⟩
  | updateNnIdx ids =>
    simp only [loaderStores]
    split_ifs
    · exact ⟨fun _ ↦ id, fun _ ↦ id⟩
    · exact ⟨fun _ ↦ id, fun _ ↦ id⟩
  | removeNnParameters => exact absurd trivial hkept
  | removeNnIdx => exact absurd trivial hkept
  | _ => exact ⟨fun _ ↦ id, fun _ ↦ id⟩

/-- After a call that takes a name away the process has no maps open. -/
theorem loaderNext_of_removes {stores : NnStores} {fails : LoaderCall → Bool} {pc : LoaderPc}
    (hremoves : pc.Removes fails) (attached : Option Attachment) :
    (loaderNext fails attached stores pc).nnParametersId = none ∧
      (loaderNext fails attached stores pc).nnIdxId = none ∧
        ∀ ids, loaderNext fails attached stores pc ≠ .wait ids := by
  cases pc with
  | createNnIdx nnParameters pinnedParameters =>
    simp only [loaderNext, if_pos hremoves.1]
    exact ⟨rfl, rfl, by simp⟩
  | loadProgs ids pinnedParameters pinnedIdx =>
    simp only [loaderNext, if_pos hremoves.1]
    exact ⟨rfl, rfl, by simp⟩
  | removeNnParameters => exact ⟨rfl, rfl, by simp [loaderNext]⟩
  | removeNnIdx => exact ⟨rfl, rfl, by simp [loaderNext]⟩
  | _ => exact hremoves.elim

variable (nets) in
theorem pin_step {event : ProcessEvent}
    (hkept : ∀ pid fails, event = .loader pid fails → ¬ (state.loaders pid).Removes fails) :
    (∀ id, state.stores.nnParameters.pin = some id →
      (state.step nets event).stores.nnParameters.pin = some id) ∧
    ∀ id, state.stores.nnIdx.pin = some id →
      (state.step nets event).stores.nnIdx.pin = some id := by
  cases event with
  | loader pid fails => exact pin_loaderStores (hkept pid fails rfl)
  | hot uid fails =>
    simp only [step]
    cases state.runs uid <;> exact ⟨fun _ ↦ id, fun _ ↦ id⟩
  | killLoader pid => exact ⟨fun _ ↦ id, fun _ ↦ id⟩
  | killHot uid => exact ⟨fun _ ↦ id, fun _ ↦ id⟩
  | frame ktime frame => exact ⟨fun _ ↦ id, fun _ ↦ id⟩

/-- A call that keeps the names. -/
theorem Shared.of_kept (h : Shared state) (hwellFormed : WellFormed state) {event : ProcessEvent}
    (hkept : ∀ pid fails, event = .loader pid fails → ¬ (state.loaders pid).Removes fails) :
    Shared (state.step nets event) := by
  obtain ⟨hpin, hpinIdx⟩ := pin_step nets hkept
  refine ⟨uses_step (h.uses.mono hpin hpinIdx) event ?_ ?_, ?_⟩
  · rintro id (hbefore | hafter)
    · exact hpin id hbefore
    · exact hafter
  · rintro id (hbefore | hafter)
    · exact hpinIdx id hbefore
    · exact hafter
  · intro attachment hattached hwait
    rcases attached_step hattached with
      ⟨old, hold, hpid, hids, hkill, -⟩ | ⟨fails, rfl, hfails, hpc, hnone⟩
    · obtain ⟨-, -, hholds⟩ := hwellFormed.attached old hold
      rw [hpid, hids] at hholds
      have hbefore : state.loaders attachment.pid = .wait attachment.ids := by
        by_cases hown : ∃ fails, event = .loader attachment.pid fails
        · obtain ⟨fails, rfl⟩ := hown
          simp only [step, Function.update_self] at hwait
          cases hpc : state.loaders attachment.pid <;> rw [hpc] at hholds hwait <;>
            first | exact hholds.elim | cases hwait
        · rwa [loaders_step_of_ne (fun fails heq ↦ hown ⟨fails, heq⟩) hkill] at hwait
      obtain ⟨hparameters, hidx⟩ := h.attached old hold (by rw [hpid, hids]; exact hbefore)
      rw [hids] at hparameters hidx
      exact ⟨hpin _ hparameters, hpinIdx _ hidx⟩
    · constructor
      · exact hpin _ (h.uses.loaderParameters attachment.pid _ (by rw [hpc]; rfl))
      · exact hpinIdx _ (h.uses.loaderIdx attachment.pid _ (by rw [hpc]; rfl))

theorem Shared.step (h : Shared state) (hwellFormed : WellFormed state) {event : ProcessEvent}
    (hconsiderate : Considerate state event) : Shared (state.step nets event) := by
  by_cases hremoves : ∃ pid fails, event = .loader pid fails ∧ (state.loaders pid).Removes fails
  · obtain ⟨pid, fails, rfl, hremoves⟩ := hremoves
    obtain ⟨hloaders, hruns, hlink⟩ := hconsiderate pid fails rfl hremoves
    obtain ⟨hnone, hnoneIdx, hnotWait⟩ := loaderNext_of_removes hremoves state.attached
    refine ⟨⟨?_, ?_, ?_, ?_⟩, ?_⟩
    · intro other id hid
      simp only [Processes.step] at hid
      rcases eq_or_ne other pid with rfl | hne
      · rw [Function.update_self, hnone] at hid
        cases hid
      · rw [Function.update_of_ne hne, (hloaders other hne).1] at hid
        cases hid
    · intro other id hid
      simp only [Processes.step] at hid
      rcases eq_or_ne other pid with rfl | hne
      · rw [Function.update_self, hnoneIdx] at hid
        cases hid
      · rw [Function.update_of_ne hne, (hloaders other hne).2] at hid
        cases hid
    · intro uid id hid
      exact absurd ((hruns uid).1.symm.trans hid) (Option.some_ne_none id).symm
    · intro uid id hid
      exact absurd ((hruns uid).2.symm.trans hid) (Option.some_ne_none id).symm
    · intro attachment hattached hwait
      exfalso
      rcases attached_step hattached with
        ⟨old, hold, hpid, -, -, -⟩ | ⟨otherFails, heq, -, hpc, -⟩
      · have howner : attachment.pid = pid := hpid.symm.trans (hlink old hold)
        simp only [Processes.step, howner, Function.update_self] at hwait
        exact hnotWait _ hwait
      · rw [(ProcessEvent.loader.inj heq).1, hpc] at hremoves
        exact hremoves
  · exact h.of_kept hwellFormed fun pid fails heq hpc ↦ hremoves ⟨pid, fails, heq, hpc⟩

theorem shared_run (hinitial : Initial state) {events : List ProcessEvent}
    (hconsiderate : Interleaving.Throughout (Processes.step nets) Considerate state events) :
    WellFormed (Interleaving.run (Processes.step nets) state events) ∧
      Shared (Interleaving.run (Processes.step nets) state events) := by
  have hbegun : Shared state := by
    refine ⟨hinitial.uses _ _, ?_⟩
    intro attachment hattached
    rw [hinitial.attached] at hattached
    cases hattached
  have hstep : ∀ (reached : Processes) event, Considerate reached event →
      (WellFormed reached ∧ Shared reached) →
      WellFormed (reached.step nets event) ∧ Shared (reached.step nets event) :=
    fun _ event hevent h ↦ ⟨h.1.step event, h.2.step h.1 hevent⟩
  exact Interleaving.run_induction_throughout (Processes.step nets) hstep
    ⟨hinitial.wellFormed, hbegun⟩ hconsiderate

/-- A call of a run whose descriptors are those of the given maps. -/
theorem maps_hotProcessStep {stores : NnStores} {ids : NnMapIds} {run : HotProcess}
    {nnParameters nnIdx : ℕ} {pc : HotPc} (hrun : run = .calls (some nnParameters) (some nnIdx) pc)
    (hparameters : nnParameters = ids.nnParameters) (hidx : nnIdx = ids.nnIdx)
    (fails : MainCall → Bool) (net : Net) :
    (hotProcessStep fails net stores run).2.maps ids =
      (hotStep (fun call ↦ fails (.map call)) net pc (stores.maps ids)).2 := by
  have hfails : descriptorFails fails (some nnParameters) (some nnIdx) =
      fun call ↦ fails (.map call) := by
    funext call
    cases call <;> rfl
  subst hrun hparameters hidx
  simp only [hotProcessStep, hfails, NnStores.maps, NnStores.writeTo, NnStores.mapsOf,
    Store.content_writeTo_self, Option.getD_some]

/-- As long as names are taken away only by a process that is alone, the running classifier works
with the maps that have the names, and every map call of every run of `hot_updating` that has opened
both maps is a call on the maps of the running classifier. -/
theorem updates_reach_classifier (hinitial : Initial state) {events : List ProcessEvent}
    (hconsiderate : Interleaving.Throughout (Processes.step nets) Considerate state events)
    (hattached : (Interleaving.run (Processes.step nets) state events).attached = some attachment)
    (hwait : (Interleaving.run (Processes.step nets) state events).loaders attachment.pid =
      .wait attachment.ids) :
    let reached := Interleaving.run (Processes.step nets) state events
    reached.stores.nnParameters.pin = some attachment.ids.nnParameters ∧
      reached.stores.nnIdx.pin = some attachment.ids.nnIdx ∧
      ∀ uid nnParameters nnIdx pc fails,
        reached.runs uid = .calls (some nnParameters) (some nnIdx) pc → pc ≠ .done →
          (reached.step nets (.hot uid fails)).stores.maps attachment.ids =
            (hotStep (fun call ↦ fails (.map call)) (nets uid) pc
              (reached.stores.maps attachment.ids)).2 := by
  intro reached
  obtain ⟨-, hshared⟩ := shared_run hinitial hconsiderate
  obtain ⟨hparameters, hidx⟩ := hshared.attached attachment hattached hwait
  refine ⟨hparameters, hidx, ?_⟩
  intro uid nnParameters nnIdx pc fails hrun hpc
  have hopen : (reached.runs uid).nnParametersId = some nnParameters ∧
      (reached.runs uid).nnIdxId = some nnIdx := by
    rw [hrun]
    cases pc <;> first | exact absurd rfl hpc | exact ⟨rfl, rfl⟩
  have hsame : nnParameters = attachment.ids.nnParameters :=
    Option.some.inj ((hshared.uses.runParameters uid _ hopen.1).symm.trans hparameters)
  have hsameIdx : nnIdx = attachment.ids.nnIdx :=
    Option.some.inj ((hshared.uses.runIdx uid _ hopen.2).symm.trans hidx)
  exact maps_hotProcessStep hrun hsame hsameIdx fails (nets uid)

theorem considerate_of_success {pid : ℕ} (h : (state.loaders pid).atCleanup = false) :
    Considerate state (.loader pid fun _ ↦ false) := by
  rintro other fails heq hremoves
  obtain ⟨rfl, rfl⟩ := ProcessEvent.loader.inj heq
  exfalso
  cases hpc : state.loaders pid <;> rw [hpc] at h hremoves <;>
    simp [LoaderPc.Removes, LoaderPc.atCleanup] at h hremoves

theorem considerate_hot (uid : ℕ) (fails : MainCall → Bool) :
    Considerate state (.hot uid fails) := by
  intro pid other heq
  cases heq

end

/-- A run of `hot_updating` that stores its network. -/
theorem updates_reach_classifier_shippedNet :
    let nets : ℕ → Net := fun _ ↦ Mlp.shippedNet
    let reached := Interleaving.run (Processes.step nets) fresh
      (firstStarts ++ List.replicate 3 (.hot 0 fun _ ↦ false))
    reached.stores.nnParameters.pin = some 0 ∧ reached.stores.nnIdx.pin = some 0 ∧
      (reached.step nets (.hot 0 fun _ ↦ false)).stores.maps ⟨0, 0⟩ =
        (hotStep allSucceed Mlp.shippedNet (.updateParameters 1)
          (reached.stores.maps ⟨0, 0⟩)).2 := by
  intro nets reached
  have hconsiderate : Interleaving.Throughout (Processes.step nets) Considerate fresh
      (firstStarts ++ List.replicate 3 (.hot 0 fun _ ↦ false)) := by
    iterate 7 refine Interleaving.throughout_cons.mpr ⟨considerate_of_success rfl, ?_⟩
    iterate 3 refine Interleaving.throughout_cons.mpr ⟨considerate_hot 0 _, ?_⟩
    exact Interleaving.throughout_nil
  have hattached : reached.attached = some ⟨0, ⟨0, 0⟩, BpfMap.HashMap.empty⟩ := rfl
  have hwait : reached.loaders 0 = .wait ⟨0, 0⟩ := rfl
  have hrun : reached.runs 0 = .calls (some 0) (some 0) (.updateParameters 1) := rfl
  obtain ⟨hpin, hpinIdx, hcalls⟩ :=
    updates_reach_classifier initial_fresh hconsiderate hattached hwait
  refine ⟨hpin, hpinIdx, hcalls 0 0 0 (.updateParameters 1) (fun _ ↦ false) hrun ?_⟩
  simp only [ne_eq, reduceCtorEq, not_false_eq_true]

end Processes

end NNeBPF

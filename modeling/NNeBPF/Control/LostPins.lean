import NNeBPF.Control.OpenMaps
import NNeBPF.Control.Uninterrupted

/-!
# A classifier that nobody reaches

Runs of `hot_updating` find maps by their names, and any process may remove a name.  When the names
of the running classifier are gone, nobody finds its maps any more: it stays as it is for the rest
of its life, whatever runs of `hot_updating` report.  A second loader whose load fails does that.
-/

namespace NNeBPF

namespace Processes

/-! ## Maps that nobody reaches -/

/-- Nobody but a program that is attached already has the maps, and they have lost their names. -/
structure CutOff (ids : NnMapIds) (state : Processes) : Prop where
  nnParameters : state.stores.nnParameters.Lost ids.nnParameters
  nnIdx : state.stores.nnIdx.Lost ids.nnIdx
  uses : Uses (· ≠ ids.nnParameters) (· ≠ ids.nnIdx) state

section

variable {nets : ℕ → Net} {state : Processes} {ids : NnMapIds}

variable (nets) in
/-- Maps that nobody reaches stay so, and they stay as they are. -/
theorem CutOff.step (h : CutOff ids state) (event : ProcessEvent) :
    CutOff ids (state.step nets event) ∧
      (state.step nets event).stores.maps ids = state.stores.maps ids := by
  obtain ⟨fd, fdIdx, hfd, hfdIdx, hparameters, hidx⟩ := evolves_step nets h.uses event
  have hlost := hparameters.lost h.nnParameters
  have hlostIdx := hidx.lost h.nnIdx
  constructor
  · refine ⟨hlost, hlostIdx, uses_step h.uses event ?_ ?_⟩
    · rintro id (hpin | hpin) rfl
      · exact h.nnParameters.2 hpin
      · exact hlost.2 hpin
    · rintro id (hpin | hpin) rfl
      · exact h.nnIdx.2 hpin
      · exact hlostIdx.2 hpin
  · have hcontent := hparameters.content_eq h.nnParameters.1 fun heq ↦ hfd _ heq rfl
    have hcontentIdx := hidx.content_eq h.nnIdx.1 fun heq ↦ hfdIdx _ heq rfl
    simp only [NnStores.maps, hcontent, hcontentIdx]

theorem CutOff.maps_run (h : CutOff ids state) (events : List ProcessEvent) :
    (Interleaving.run (Processes.step nets) state events).stores.maps ids =
      state.stores.maps ids := by
  have hstep : ∀ (reached : Processes) event,
      (CutOff ids reached ∧ reached.stores.maps ids = state.stores.maps ids) →
        CutOff ids (reached.step nets event) ∧
          (reached.step nets event).stores.maps ids = state.stores.maps ids := by
    intro reached event hreached
    obtain ⟨hcutOff, hmaps⟩ := hreached.1.step nets event
    exact ⟨hcutOff, hmaps.trans hreached.2⟩
  exact (Interleaving.run_invariant (Processes.step nets) hstep ⟨h, rfl⟩ events).2

end

/-! ## The attached program without its names -/

section

variable {nets : ℕ → Net} {state : Processes} {attachment : Attachment}

/-- The maps of an attached program that nobody reaches, and its link. -/
theorem frozen_run (hwellFormed : WellFormed state) (hattached : state.attached = some attachment)
    (hparameters : state.stores.nnParameters.pin ≠ some attachment.ids.nnParameters)
    (hidx : state.stores.nnIdx.pin ≠ some attachment.ids.nnIdx)
    (huses : Uses (· ≠ attachment.ids.nnParameters) (· ≠ attachment.ids.nnIdx) state)
    (later : List ProcessEvent) :
    let after := Interleaving.run (Processes.step nets) state later
    after.stores.maps attachment.ids = state.stores.maps attachment.ids ∧
      ((∀ fails, .loader attachment.pid fails ∉ later) → .killLoader attachment.pid ∉ later →
        ∃ flowMap, after.attached = some { attachment with flowMap := flowMap }) := by
  obtain ⟨hlt, hltIdx, -⟩ := hwellFormed.attached attachment hattached
  have hcutOff : CutOff attachment.ids state := ⟨⟨hlt, hparameters⟩, ⟨hltIdx, hidx⟩, huses⟩
  exact ⟨hcutOff.maps_run later, attached_run hattached⟩

/-- Once the names of its maps are gone and no other process has them open, the running classifier
is never updated again: whatever happens later, its maps stay as they are, and it stays on the
interface until its own process ends. -/
theorem never_updated_again (hinitial : Initial state) {events : List ProcessEvent}
    (hattached : (Interleaving.run (Processes.step nets) state events).attached = some attachment)
    (hparameters : (Interleaving.run (Processes.step nets) state events).stores.nnParameters.pin ≠
      some attachment.ids.nnParameters)
    (hidx : (Interleaving.run (Processes.step nets) state events).stores.nnIdx.pin ≠
      some attachment.ids.nnIdx)
    (huses : Uses (· ≠ attachment.ids.nnParameters) (· ≠ attachment.ids.nnIdx)
      (Interleaving.run (Processes.step nets) state events))
    (later : List ProcessEvent) :
    let reached := Interleaving.run (Processes.step nets) state events
    let after := Interleaving.run (Processes.step nets) state (events ++ later)
    after.stores.maps attachment.ids = reached.stores.maps attachment.ids ∧
      ((∀ fails, .loader attachment.pid fails ∉ later) → .killLoader attachment.pid ∉ later →
        ∃ flowMap, after.attached = some { attachment with flowMap := flowMap }) := by
  intro reached after
  have hafter : after = Interleaving.run (Processes.step nets) reached later :=
    Interleaving.run_append (Processes.step nets) state events later
  have hwellFormed : WellFormed reached := wellFormed_run hinitial.wellFormed events
  rw [hafter]
  exact frozen_run hwellFormed hattached hparameters hidx huses later

end

/-! ## Two loaders -/

/-- The first loader starts without failures. -/
def firstStarts : List ProcessEvent := List.replicate 7 (.loader 0 fun _ ↦ false)

/-- Only the load fails. -/
def onlyLoadFails : LoaderCall → Bool
  | .loadObject => true
  | _ => false

theorem run_firstStarts (nets : ℕ → Net) :
    Interleaving.run (Processes.step nets) fresh firstStarts =
      { stores := fresh.stores.started
        loaders := Function.update fresh.loaders 0 (.wait ⟨0, 0⟩)
        runs := fresh.runs
        attached := some ⟨0, ⟨0, 0⟩, BpfMap.HashMap.empty⟩ } := by
  have hfill : fillFails (fun _ ↦ false) = false := rfl
  exact run_loader rfl rfl rfl hfill rfl

theorem run_secondFails (nets : ℕ → Net) :
    Interleaving.run (Processes.step nets) fresh
        (firstStarts ++ List.replicate 5 (.loader 1 onlyLoadFails)) =
      { stores := ⟨fresh.stores.started.nnParameters.unpin, fresh.stores.started.nnIdx.unpin⟩
        loaders := Function.update (Function.update fresh.loaders 0 (.wait ⟨0, 0⟩)) 1 .ended
        runs := fresh.runs
        attached := some ⟨0, ⟨0, 0⟩, BpfMap.HashMap.empty⟩ } := by
  have hopen : onlyLoadFails .openObject = false := rfl
  rw [Interleaving.run_append, run_firstStarts, run_loader_of_load_fails rfl hopen rfl]
  rfl

/-- A run of `hot_updating` after the names are gone. -/
theorem never_updated_again_shippedNet :
    let nets : ℕ → Net := fun _ ↦ Mlp.shippedNet
    let events := firstStarts ++ List.replicate 5 (.loader 1 onlyLoadFails)
    let reached := Interleaving.run (Processes.step nets) fresh events
    let after := Interleaving.run (Processes.step nets) fresh
      (events ++ List.replicate 5 (.hot 0 fun _ ↦ false))
    after.stores.maps ⟨0, 0⟩ = reached.stores.maps ⟨0, 0⟩ ∧ after.attached.isSome := by
  intro nets events reached after
  have hreached : reached = _ := run_secondFails nets
  have hattached : reached.attached = some ⟨0, ⟨0, 0⟩, BpfMap.HashMap.empty⟩ := by rw [hreached]
  have hpin : reached.stores.nnParameters.pin ≠ some 0 := by
    rw [hreached]
    exact (Option.some_ne_none 0).symm
  have hpinIdx : reached.stores.nnIdx.pin ≠ some 0 := by
    rw [hreached]
    exact (Option.some_ne_none 0).symm
  have huses : Uses (· ≠ 0) (· ≠ 0) reached := by
    have hnone := initial_fresh.uses (· ≠ 0) (· ≠ 0)
    rw [hreached]
    refine ⟨forall_update (forall_update hnone.loaderParameters ?_) ?_,
      forall_update (forall_update hnone.loaderIdx ?_) ?_, hnone.runParameters, hnone.runIdx⟩ <;>
    · intro id hid
      cases hid
  obtain ⟨hmaps, hstays⟩ := never_updated_again initial_fresh hattached hpin hpinIdx huses
    (List.replicate 5 (.hot 0 fun _ ↦ false))
  obtain ⟨flowMap, hafter⟩ := hstays (by simp) (by simp)
  exact ⟨hmaps, Option.isSome_iff_exists.mpr ⟨_, hafter⟩⟩

end Processes

end NNeBPF

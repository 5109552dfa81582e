import NNeBPF.Control.Uninterrupted
import NNeBPF.Library.Simulation

/-!
# Processes one after another

Starts, exits, updates and frames that do not overlap are turns.  Between two turns the program on
the interface reads the maps under the names, so the events of a host describe all processes that
take turns.
-/

namespace NNeBPF

open PinnedObjects (Store)

/-- What happens without an interruption: a start of the loader, the exit of the attached loader,
its end by a signal, a run of `hot_updating`, and a frame. -/
inductive HostTurn
  | start (pid : ℕ)
  | exit
  | kill
  | hotUpdate (uid : ℕ)
  | frame (ktime : Ktime) (frame : Frame)

namespace HostTurn

/-- The calls that make up a turn. -/
def calls (state : Processes) : HostTurn → List ProcessEvent
  | .start pid => List.replicate 7 (.loader pid fun _ ↦ false)
  | .exit =>
    match state.attached with
    | some attachment => List.replicate 4 (.loader attachment.pid fun _ ↦ false)
    | none => []
  | .kill =>
    match state.attached with
    | some attachment => [.killLoader attachment.pid]
    | none => []
  | .hotUpdate uid => List.replicate 5 (.hot uid fun _ ↦ false)
  | .frame ktime bytes => [.frame ktime bytes]

def event (nets : ℕ → Net) : HostTurn → HostEvent
  | .start _ => .start
  | .exit => .exit
  | .kill => .kill
  | .hotUpdate uid => .hotUpdate (nets uid)
  | .frame ktime bytes => .frame ktime bytes

/-- The turn begins with the first call of its process, and the exit is that of an attached
loader. -/
def Admitted (state : Processes) : HostTurn → Prop
  | .start pid => state.loaders pid = .openObject
  | .exit => state.attached.isSome
  | .hotUpdate uid => state.runs uid = .getNnParameters
  | .kill | .frame _ _ => True

end HostTurn

namespace Processes

def turnStep (nets : ℕ → Net) (state : Processes) (turn : HostTurn) : Processes :=
  Interleaving.run (Processes.step nets) state (turn.calls state)

/-- No turn is under way: the loader of the attached program waits, and its maps have the names. -/
structure Settled (state : Processes) : Prop where
  names : state.stores.Together
  attached : ∀ attachment, state.attached = some attachment →
    state.loaders attachment.pid = .wait attachment.ids ∧
      state.stores.nnParameters.pin = some attachment.ids.nnParameters ∧
        state.stores.nnIdx.pin = some attachment.ids.nnIdx

section

variable {nets : ℕ → Net} {state : Processes}

theorem Settled.start (h : Settled state) {pid : ℕ} (hpid : state.loaders pid = .openObject) :
    Settled (state.turnStep nets (.start pid)) ∧
      (state.turnStep nets (.start pid)).host = state.host.step .start := by
  have hown : ∀ attachment, state.attached = some attachment → attachment.pid ≠ pid := by
    rintro attachment hattached rfl
    have hwait := (h.attached attachment hattached).1
    rw [hpid] at hwait
    cases hwait
  have hfails : state.host.loaderFails (fun _ ↦ false) = state.host.startFails := by
    funext call
    cases call <;> rfl
  have hfill : fillFails (fun _ ↦ false) = false := rfl
  constructor
  · simp only [turnStep, HostTurn.calls]
    rw [run_loader hpid rfl rfl hfill rfl]
    refine ⟨rfl, ?_⟩
    intro attachment hattached
    cases hbefore : state.attached with
    | none =>
      simp only [hbefore, Option.none_or, Bool.false_eq_true, if_false] at hattached
      obtain rfl := Option.some.inj hattached
      exact ⟨Function.update_self .., rfl, rfl⟩
    | some old =>
      simp only [hbefore, Option.some_or, Bool.false_eq_true, if_false] at hattached
      obtain rfl := Option.some.inj hattached
      obtain ⟨hwait, hpin, hpinIdx⟩ := h.attached old hbefore
      refine ⟨(Function.update_of_ne (hown old hbefore) _ _).trans hwait, ?_, ?_⟩
      · exact congrArg some (Store.reuseId_of_pin hpin)
      · exact congrArg some (Store.reuseId_of_pin hpinIdx)
  · simp only [turnStep, HostTurn.calls]
    rw [host_run_loader hpid h.names hown, hfails]
    rfl

theorem Settled.exit (h : Settled state) (hattached : state.attached.isSome) :
    Settled (state.turnStep nets .exit) ∧
      (state.turnStep nets .exit).host = state.host.step .exit := by
  obtain ⟨attachment, hattachment⟩ := Option.isSome_iff_exists.mp hattached
  have hwait := (h.attached attachment hattachment).1
  have hafter : state.turnStep nets .exit =
      { stores := ⟨state.stores.nnParameters.unpin, state.stores.nnIdx.unpin⟩
        loaders := Function.update state.loaders attachment.pid .ended
        runs := state.runs
        attached := detach attachment.pid state.attached } := by
    simp only [turnStep, HostTurn.calls, hattachment, List.replicate, Interleaving.run_cons,
      Interleaving.run_nil, Processes.step, hwait, loaderNext, loaderStores, loaderAttached,
      Function.update_self, Function.update_idem]
  have hdetached : detach attachment.pid state.attached = none := by
    rw [hattachment, detach, Option.filter_some, if_neg (by simp)]
  rw [hafter, hdetached]
  refine ⟨⟨rfl, ?_⟩, rfl⟩
  intro other hother
  cases hother

theorem Settled.kill (h : Settled state) :
    Settled (state.turnStep nets .kill) ∧
      (state.turnStep nets .kill).host = state.host.step .kill := by
  cases hattachment : state.attached with
  | none =>
    have hafter : state.turnStep nets .kill = state := by
      simp only [turnStep, HostTurn.calls, hattachment, Interleaving.run_nil]
    rw [hafter]
    refine ⟨h, ?_⟩
    simp only [host, Host.step, hattachment, Option.map_none]
  | some attachment =>
    have hafter : state.turnStep nets .kill =
        { state with
          loaders := Function.update state.loaders attachment.pid .ended
          attached := none } := by
      simp only [turnStep, HostTurn.calls, hattachment, Interleaving.run_cons,
        Interleaving.run_nil, Processes.step, detach, Option.filter_some, bne_self_eq_false,
        Bool.false_eq_true, if_false]
    rw [hafter]
    refine ⟨⟨h.names, ?_⟩, rfl⟩
    intro other hother
    cases hother

theorem Settled.hotUpdate (h : Settled state) {uid : ℕ} (huid : state.runs uid = .getNnParameters) :
    Settled (state.turnStep nets (.hotUpdate uid)) ∧
      (state.turnStep nets (.hotUpdate uid)).host = state.host.step (.hotUpdate (nets uid)) := by
  have hcalls : hotCalls (fun _ ↦ false) (nets uid) = NNeBPF.hotUpdate (nets uid) := by
    have hfails : mapFails (fun _ ↦ false) = allSucceed := by
      funext call
      cases call <;> rfl
    funext nn
    simp only [hotCalls, NNeBPF.hotUpdate, hfails]
  constructor
  · simp only [turnStep, HostTurn.calls]
    rcases h.names.cases with ⟨hpin, hpinIdx⟩ | ⟨ids, hpin, hpinIdx⟩
    · obtain ⟨hstores, hloaders, hattached⟩ :=
        run_hot_of_unpinned nets huid hpin hpinIdx fun _ ↦ false
      exact ⟨by rw [hstores]; exact h.names, by rw [hstores, hloaders, hattached]; exact h.attached⟩
    · have hopened := opened_run_hot nets huid hpin hpinIdx fun _ ↦ false
      constructor
      · unfold NnStores.Together
        rw [hopened.pin, hopened.pinIdx]
        rfl
      · rw [hopened.loaders, hopened.attached, hopened.pin, hopened.pinIdx, ← hpin, ← hpinIdx]
        exact h.attached
  · simp only [turnStep, HostTurn.calls]
    rw [host_run_hot huid h.names, hcalls]
    rfl

theorem Settled.frame (h : Settled state) (ktime : Ktime) (frame : Frame) :
    Settled (state.turnStep nets (.frame ktime frame)) ∧
      (state.turnStep nets (.frame ktime frame)).host = state.host.step (.frame ktime frame) := by
  have hafter : state.turnStep nets (.frame ktime frame) =
      { state with attached := state.attached.map (process state.stores ktime frame) } := rfl
  rw [hafter]
  cases hattachment : state.attached with
  | none =>
    refine ⟨⟨h.names, ?_⟩, ?_⟩
    · intro attachment hattached
      cases hattached
    · simp only [host, Host.step, hattachment, Option.map_none]
      cases state.stores.pinned <;> rfl
  | some attachment =>
    obtain ⟨hwait, hpin, hpinIdx⟩ := h.attached attachment hattachment
    refine ⟨⟨h.names, ?_⟩, ?_⟩
    · intro later hlater
      obtain rfl := Option.some.inj hlater
      exact ⟨hwait, hpin, hpinIdx⟩
    · simp only [host, Host.step, hattachment, Option.map_some,
        NnStores.pinned_of_pins hpin hpinIdx, process]

variable (nets) in
/-- A turn does to the host what its event says. -/
theorem Settled.turnStep (h : Settled state) {turn : HostTurn} (hturn : turn.Admitted state) :
    Settled (state.turnStep nets turn) ∧
      (state.turnStep nets turn).host = state.host.step (turn.event nets) := by
  cases turn with
  | start pid => exact h.start hturn
  | exit => exact h.exit hturn
  | kill => exact h.kill
  | hotUpdate uid => exact h.hotUpdate hturn
  | frame ktime frame => exact h.frame ktime frame

end

end Processes

end NNeBPF

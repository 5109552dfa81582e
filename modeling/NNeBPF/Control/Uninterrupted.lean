import NNeBPF.Control.Lifetime
import NNeBPF.Control.Processes

/-!
# Processes that nothing interrupts

The calls of one process in a row, seen from the host: a loader does what `loaderMain` says, where
the attach fails while a program is attached, and a run of `hot_updating` does what `hotMain` says.
This holds whatever calls fail, as long as both names are there or none.
-/

namespace NNeBPF

open PinnedObjects (Store)

/-! ## The host that processes leave -/

/-- The maps under the names, if both names are there. -/
def NnStores.pinned (stores : NnStores) : Option NnMaps :=
  stores.nnParameters.pin.bind fun nnParameters ↦
    stores.nnIdx.pin.map fun nnIdx ↦ stores.maps ⟨nnParameters, nnIdx⟩

/-- The maps that a loader finds or creates. -/
def NnStores.reusedIds (stores : NnStores) : NnMapIds :=
  ⟨stores.nnParameters.reuseId, stores.nnIdx.reuseId⟩

/-- The maps after a load. -/
def NnStores.loaded (stores : NnStores) : NnStores where
  nnParameters := stores.nnParameters.reuse NnMaps.zero.nnParameters
  nnIdx := stores.nnIdx.reuse NnMaps.zero.nnIdx

/-- The maps after a load, with the start index stored. -/
def NnStores.started (stores : NnStores) : NnStores :=
  stores.loaded.writeTo none (some stores.nnIdx.reuseId)
    ((stores.loaded.maps stores.reusedIds).setIdx initialNnIdx)

/-- Both names are there, or none. -/
def NnStores.Together (stores : NnStores) : Prop :=
  stores.nnParameters.pin.isSome = stores.nnIdx.pin.isSome

def Processes.host (state : Processes) : Host where
  pinned := state.stores.pinned
  attached := state.attached.map fun attachment ↦ (loadedProgs, attachment.flowMap)

/-- The calls of a loader that fail on this host, where one program can be attached. -/
def Host.loaderFails (host : Host) (fails : LoaderCall → Bool) : LoaderCall → Bool
  | .attachXdp => fails .attachXdp || host.attached.isSome
  | call => fails call

namespace NnStores

variable {stores : NnStores}

theorem Together.cases (h : stores.Together) :
    (stores.nnParameters.pin = none ∧ stores.nnIdx.pin = none) ∨
      ∃ ids : NnMapIds, stores.nnParameters.pin = some ids.nnParameters ∧
        stores.nnIdx.pin = some ids.nnIdx := by
  unfold Together at h
  cases hpin : stores.nnParameters.pin with
  | none =>
    rw [hpin, Option.isSome_none, eq_comm, Option.isSome_eq_false_iff, Option.isNone_iff_eq_none]
      at h
    exact Or.inl ⟨rfl, h⟩
  | some nnParameters =>
    rw [hpin, Option.isSome_some, eq_comm] at h
    obtain ⟨nnIdx, hpinIdx⟩ := Option.isSome_iff_exists.mp h
    exact Or.inr ⟨⟨nnParameters, nnIdx⟩, rfl, hpinIdx⟩

theorem pinned_of_none (h : stores.nnParameters.pin = none) : stores.pinned = none := by
  rw [pinned, h, Option.bind_none]

theorem pinned_of_pins {ids : NnMapIds} (hpin : stores.nnParameters.pin = some ids.nnParameters)
    (hpinIdx : stores.nnIdx.pin = some ids.nnIdx) : stores.pinned = some (stores.maps ids) := by
  rw [pinned, hpin, hpinIdx, Option.bind_some, Option.map_some]

theorem maps_loaded (h : stores.Together) :
    stores.loaded.maps stores.reusedIds = stores.pinned.getD .zero := by
  have hmaps : stores.loaded.maps stores.reusedIds =
      { nnParameters := (stores.nnParameters.pin.map stores.nnParameters.content).getD
          NnMaps.zero.nnParameters
        nnIdx := (stores.nnIdx.pin.map stores.nnIdx.content).getD NnMaps.zero.nnIdx } := by
    simp only [maps, loaded, reusedIds, Store.content_reuse_reuseId]
  rcases h.cases with ⟨hpin, hpinIdx⟩ | ⟨ids, hpin, hpinIdx⟩
  · rw [hmaps, pinned_of_none hpin, hpin, hpinIdx]
    rfl
  · rw [hmaps, pinned_of_pins hpin hpinIdx, hpin, hpinIdx]
    rfl

theorem pinned_loaded (h : stores.Together) :
    stores.loaded.pinned = some (stores.pinned.getD .zero) := by
  rw [← maps_loaded h]
  rfl

theorem pinned_started (h : stores.Together) :
    stores.started.pinned = some ((stores.pinned.getD .zero).setIdx initialNnIdx) := by
  rw [← maps_loaded h]
  simp only [pinned, started, loaded, writeTo, maps, reusedIds, Store.pin_writeTo, Store.pin_reuse,
    Option.bind_some, Option.map_some, Store.writeTo_none, Store.content_writeTo_self]
  rfl

end NnStores

namespace Processes

/-- No names, and no process has begun. -/
def fresh : Processes where
  stores :=
    { nnParameters :=
        { content := fun _ ↦ NnMaps.zero.nnParameters
          pin := none
          next := 0
          pin_lt := fun id hid ↦ absurd hid (Option.some_ne_none id).symm }
      nnIdx :=
        { content := fun _ ↦ NnMaps.zero.nnIdx
          pin := none
          next := 0
          pin_lt := fun id hid ↦ absurd hid (Option.some_ne_none id).symm } }
  loaders := fun _ ↦ .openObject
  runs := fun _ ↦ .getNnParameters
  attached := none

theorem initial_fresh : Initial fresh where
  loaders := fun _ ↦ rfl
  runs := fun _ ↦ rfl
  attached := rfl

section

variable {nets : ℕ → Net} {state : Processes} {pid : ℕ} {fails : LoaderCall → Bool}

/-! ## A loader -/

/-- A filling call of the loader fails. -/
def fillFails (fails : LoaderCall → Bool) : Bool :=
  progsTable.any fun desc ↦
    fails (.findProgram desc) || fails (.programFd desc) || fails (.updateProgs desc)

/-- A process that has ended makes no calls. -/
theorem run_loader_of_ended (hpid : state.loaders pid = .ended) (calls : ℕ) :
    Interleaving.run (Processes.step nets) state (List.replicate calls (.loader pid fails)) =
      state := by
  have hstep : state.step nets (.loader pid fails) = state := by
    have hloaders : Function.update state.loaders pid .ended = state.loaders := by
      rw [← hpid, Function.update_eq_self]
    simp only [Processes.step, hpid, loaderNext, loaderStores, loaderAttached, hloaders]
  induction calls with
  | zero => rfl
  | succ calls ih => rw [List.replicate_succ, Interleaving.run_cons, hstep, ih]

theorem run_loader_of_open_fails (hpid : state.loaders pid = .openObject)
    (hopen : fails .openObject = true) :
    Interleaving.run (Processes.step nets) state (List.replicate 1 (.loader pid fails)) =
      { state with loaders := Function.update state.loaders pid .ended } := by
  simp only [List.replicate, Interleaving.run_cons, Interleaving.run_nil, Processes.step, hpid,
    loaderNext, loaderStores, loaderAttached, hopen, if_true]

/-- A failed load removes both names, whoever has made them. -/
theorem run_loader_of_load_fails (hpid : state.loaders pid = .openObject)
    (hopen : fails .openObject = false) (hload : fails .loadObject = true) :
    Interleaving.run (Processes.step nets) state (List.replicate 5 (.loader pid fails)) =
      { stores := ⟨state.stores.nnParameters.unpin, state.stores.nnIdx.unpin⟩
        loaders := Function.update state.loaders pid .ended
        runs := state.runs
        attached := detach pid state.attached } := by
  simp only [List.replicate, Interleaving.run_cons, Interleaving.run_nil, Processes.step, hpid,
    loaderNext, loaderStores, loaderAttached, hopen, hload, Function.update_self,
    Function.update_idem, Bool.false_eq_true, if_false, if_true]

/-- The calls up to the load. -/
theorem run_loader_load (hpid : state.loaders pid = .openObject)
    (hopen : fails .openObject = false) (hload : fails .loadObject = false) :
    Interleaving.run (Processes.step nets) state (List.replicate 4 (.loader pid fails)) =
      { state with
        stores := state.stores.loaded
        loaders := Function.update state.loaders pid (.fillProgs state.stores.reusedIds) } := by
  simp only [List.replicate, Interleaving.run_cons, Interleaving.run_nil, Processes.step, hpid,
    loaderNext, loaderStores, loaderAttached, hopen, hload, Function.update_self,
    Function.update_idem, Bool.false_eq_true, if_false]
  rfl

/-- The calls behind the load. -/
theorem run_loader_rest {ids : NnMapIds} (hpid : state.loaders pid = .fillProgs ids) :
    Interleaving.run (Processes.step nets) state (List.replicate 3 (.loader pid fails)) =
      if fillFails fails || fails .updateNnIdx then
        { state with loaders := Function.update state.loaders pid .ended }
      else
        { stores := state.stores.writeTo none (some ids.nnIdx)
            ((state.stores.maps ids).setIdx initialNnIdx)
          loaders := Function.update state.loaders pid
            (if fails .attachXdp || state.attached.isSome then .ended else .wait ids)
          runs := state.runs
          attached := if fails .attachXdp then state.attached
            else state.attached.or (some ⟨pid, ids, BpfMap.HashMap.empty⟩) } := by
  have hfill : (progsTable.any fun desc ↦
      fails (.findProgram desc) || fails (.programFd desc) || fails (.updateProgs desc)) =
        fillFails fails := rfl
  cases hfails : fillFails fails with
  | true =>
    simp only [List.replicate, Interleaving.run_cons, Interleaving.run_nil, Processes.step, hpid,
      loaderNext, loaderStores, loaderAttached, hfill, hfails, Function.update_self,
      Function.update_idem, Bool.true_or, if_true]
  | false =>
    cases hidx : fails .updateNnIdx with
    | true =>
      simp only [List.replicate, Interleaving.run_cons, Interleaving.run_nil, Processes.step, hpid,
        loaderNext, loaderStores, loaderAttached, hfill, hfails, hidx, Function.update_self,
        Function.update_idem, Bool.or_true, Bool.false_eq_true, if_true, if_false]
    | false =>
      simp only [List.replicate, Interleaving.run_cons, Interleaving.run_nil, Processes.step, hpid,
        loaderNext, loaderStores, loaderAttached, hfill, hfails, hidx, Function.update_self,
        Function.update_idem, Bool.or_self, Bool.false_eq_true, if_false]

/-- The calls of a loader that nothing interrupts. -/
theorem run_loader (hpid : state.loaders pid = .openObject) (hopen : fails .openObject = false)
    (hload : fails .loadObject = false) (hfill : fillFails fails = false)
    (hidx : fails .updateNnIdx = false) :
    Interleaving.run (Processes.step nets) state (List.replicate 7 (.loader pid fails)) =
      { stores := state.stores.started
        loaders := Function.update state.loaders pid
          (if fails .attachXdp || state.attached.isSome then .ended
            else .wait state.stores.reusedIds)
        runs := state.runs
        attached := if fails .attachXdp then state.attached
          else state.attached.or (some ⟨pid, state.stores.reusedIds, BpfMap.HashMap.empty⟩) } := by
  rw [List.replicate_add 4 3, Interleaving.run_append, run_loader_load hpid hopen hload,
    run_loader_rest (Function.update_self ..)]
  simp only [hfill, hidx, Bool.or_self, Bool.false_eq_true, if_false, Function.update_idem]
  rfl

theorem detach_of_ne (hown : ∀ attachment, state.attached = some attachment →
      attachment.pid ≠ pid) :
    detach pid state.attached = state.attached := by
  cases hattached : state.attached with
  | none => rfl
  | some attachment =>
    rw [detach, Option.filter_some, if_pos (by simpa using hown attachment hattached)]

theorem fillFails_eq (fails : LoaderCall → Bool) :
    fillFails fails = ((progsTable.any fun desc ↦ fails (.findProgram desc)) ||
      progsTable.any fun desc ↦ fails (.programFd desc) || fails (.updateProgs desc)) := by
  rw [Bool.eq_iff_iff]
  simp only [fillFails, List.any_eq_true, Bool.or_eq_true, or_assoc, and_or_left, exists_or]

/-- `loaderMain` where the object can be loaded. -/
theorem loaderMain_of_loaded {host : Host} (hopen : fails .openObject = false)
    (hload : fails .loadObject = false) :
    (loaderMain (host.loaderFails fails) host).1 =
      if fillFails fails || fails .updateNnIdx then
        { host with pinned := some (host.pinned.getD .zero) }
      else
        ⟨some ((host.pinned.getD .zero).setIdx initialNnIdx),
          if fails .attachXdp then host.attached
          else host.attached.or (some (loadedProgs, BpfMap.HashMap.empty))⟩ := by
  rw [fillFails_eq]
  simp only [loaderMain, Host.loaderFails, hopen, hload, Bool.false_eq_true, if_false]
  by_cases hfind : (progsTable.any fun desc ↦ fails (.findProgram desc)) = true
  · simp only [hfind, Bool.true_or, if_true]
  · by_cases hfill : (progsTable.any fun desc ↦
        fails (.programFd desc) || fails (.updateProgs desc)) = true
    · simp only [hfind, hfill, Bool.or_true, Bool.true_or, Bool.false_eq_true, if_false, if_true]
    · by_cases hidx : fails .updateNnIdx = true
      · simp only [hfind, hfill, hidx, Bool.or_true, Bool.false_eq_true, if_false, if_true]
      · simp only [hfind, hfill, hidx, Bool.or_self, Bool.false_eq_true, if_false]
        by_cases hattach : fails .attachXdp = true
        · simp only [hattach, Bool.true_or, if_true]
        · obtain ⟨pinned, attached⟩ := host
          cases attached <;> simp [hattach]

/-- A loader that nothing interrupts does to the host what `loaderMain` says. -/
theorem host_run_loader (hpid : state.loaders pid = .openObject) (hnames : state.stores.Together)
    (hown : ∀ attachment, state.attached = some attachment → attachment.pid ≠ pid)
    (fails : LoaderCall → Bool) :
    (Interleaving.run (Processes.step nets) state (List.replicate 7 (.loader pid fails))).host =
      (loaderMain (state.host.loaderFails fails) state.host).1 := by
  cases hopen : fails .openObject with
  | true =>
    rw [List.replicate_add 1 6, Interleaving.run_append, run_loader_of_open_fails hpid hopen,
      run_loader_of_ended (Function.update_self ..)]
    simp only [loaderMain, Host.loaderFails, hopen, if_true]
    rfl
  | false =>
    cases hload : fails .loadObject with
    | true =>
      rw [List.replicate_add 5 2, Interleaving.run_append,
        run_loader_of_load_fails hpid hopen hload, run_loader_of_ended (Function.update_self ..)]
      simp only [loaderMain, Host.loaderFails, hopen, hload, Bool.false_eq_true, if_false, if_true]
      simp only [host, detach_of_ne hown]
      rfl
    | false =>
      rw [List.replicate_add 4 3, Interleaving.run_append, run_loader_load hpid hopen hload,
        run_loader_rest (Function.update_self ..), loaderMain_of_loaded hopen hload]
      by_cases hcalls : (fillFails fails || fails .updateNnIdx) = true
      · rw [if_pos hcalls, if_pos hcalls]
        simp only [host, NnStores.pinned_loaded hnames]
      · rw [if_neg hcalls, if_neg hcalls]
        have hstarted : (state.stores.loaded.writeTo none (some state.stores.reusedIds.nnIdx)
            ((state.stores.loaded.maps state.stores.reusedIds).setIdx initialNnIdx)).pinned =
              some ((state.stores.pinned.getD .zero).setIdx initialNnIdx) :=
          NnStores.pinned_started hnames
        simp only [host, hstarted]
        cases fails .attachXdp <;> cases state.attached <;> rfl

end

/-! ## A run of `hot_updating` -/

section

variable {stores : NnStores} {ids : NnMapIds} (fails : MainCall → Bool) (net : Net)

/-- The descriptors that a run opens while the names stand for these maps. -/
def openedParameters (fails : MainCall → Bool) (ids : NnMapIds) : Option ℕ :=
  if fails .objGetNnParameters then none else some ids.nnParameters

def openedIdx (fails : MainCall → Bool) (ids : NnMapIds) : Option ℕ :=
  if fails .objGetNnIdx then none else some ids.nnIdx

theorem descriptorFails_opened (ids : NnMapIds) :
    descriptorFails fails (openedParameters fails ids) (openedIdx fails ids) = mapFails fails := by
  funext call
  cases call <;> simp only [descriptorFails, mapFails, openedParameters, openedIdx] <;>
    split_ifs with hopen <;> simp [hopen]

theorem mapsOf_opened (stores : NnStores) (ids : NnMapIds) :
    (fails .objGetNnParameters = false →
      (stores.mapsOf (openedParameters fails ids) (openedIdx fails ids)).nnParameters =
        (stores.maps ids).nnParameters) ∧
    (fails .objGetNnIdx = false →
      (stores.mapsOf (openedParameters fails ids) (openedIdx fails ids)).nnIdx =
        (stores.maps ids).nnIdx) := by
  constructor <;> intro hopen <;>
    simp only [NnStores.mapsOf, NnStores.maps, openedParameters, openedIdx, hopen,
      Bool.false_eq_true, if_false, Option.getD_some]

/-- Through an invalid descriptor nothing is written. -/
theorem maps_writeTo_opened (stores : NnStores) (ids : NnMapIds) (nn : NnMaps) :
    (stores.writeTo (openedParameters fails ids) (openedIdx fails ids) nn).maps ids =
      { nnParameters :=
          if fails .objGetNnParameters then (stores.maps ids).nnParameters else nn.nnParameters
        nnIdx := if fails .objGetNnIdx then (stores.maps ids).nnIdx else nn.nnIdx } := by
  simp only [NnStores.maps, NnStores.writeTo, openedParameters, openedIdx]
  split_ifs <;> simp only [Store.writeTo_none, Store.content_writeTo_self]

/-- A call of a run is the call that `hotMain` makes on the maps. -/
theorem hotProcessStep_opened (stores : NnStores) (ids : NnMapIds) (pc : HotPc) :
    let opened := HotProcess.calls (openedParameters fails ids) (openedIdx fails ids)
    let after := hotStep (mapFails fails) net pc (stores.maps ids)
    (hotProcessStep fails net stores (opened pc)).1 = opened after.1 ∧
      (hotProcessStep fails net stores (opened pc)).2.maps ids = after.2 := by
  intro opened after
  obtain ⟨hparameters, hidx⟩ := mapsOf_opened fails stores ids
  have hsame : (stores.writeTo (openedParameters fails ids) (openedIdx fails ids)
      (stores.mapsOf (openedParameters fails ids) (openedIdx fails ids))).maps ids =
        stores.maps ids := by
    simp only [NnStores.writeTo, NnStores.mapsOf, NnStores.maps, Store.writeTo_content]
  simp only [opened, after, hotProcessStep, descriptorFails_opened]
  cases pc with
  | lookup =>
    refine ⟨?_, hsame⟩
    by_cases hfails : mapFails fails .lookupNnIdx = true
    · simp only [hotStep, hfails, if_true]
    · have hopen : fails .objGetNnIdx = false :=
        (Bool.or_eq_false_iff.mp (Bool.eq_false_of_not_eq_true hfails)).1
      simp only [hotStep, NnMaps.activeIdx, hidx hopen]
  | updateParameters nnIdx =>
    refine ⟨rfl, ?_⟩
    by_cases hfails : mapFails fails .updateNnParameters = true
    · simp only [hotStep, hfails, if_true]
      exact hsame
    · have hopen : fails .objGetNnParameters = false :=
        (Bool.or_eq_false_iff.mp (Bool.eq_false_of_not_eq_true hfails)).1
      have hkept : (if fails .objGetNnIdx then (stores.maps ids).nnIdx
          else (stores.mapsOf (openedParameters fails ids) (openedIdx fails ids)).nnIdx) =
            (stores.maps ids).nnIdx := by
        split_ifs with hopenIdx
        · rfl
        · exact hidx (Bool.eq_false_of_not_eq_true hopenIdx)
      simp only [hotStep, hfails, maps_writeTo_opened, NnMaps.setParameters, hopen,
        hparameters hopen, hkept, Bool.false_eq_true, if_false]
  | updateIdx nnIdx =>
    refine ⟨rfl, ?_⟩
    by_cases hfails : mapFails fails .updateNnIdx = true
    · simp only [hotStep, hfails, if_true]
      exact hsame
    · have hopenIdx : fails .objGetNnIdx = false :=
        (Bool.or_eq_false_iff.mp (Bool.eq_false_of_not_eq_true hfails)).1
      have hkept : (if fails .objGetNnParameters then (stores.maps ids).nnParameters
          else (stores.mapsOf (openedParameters fails ids) (openedIdx fails ids)).nnParameters) =
            (stores.maps ids).nnParameters := by
        split_ifs with hopen
        · rfl
        · exact hparameters (Bool.eq_false_of_not_eq_true hopen)
      simp only [hotStep, hfails, maps_writeTo_opened, NnMaps.setIdx, hopenIdx, hidx hopenIdx,
        hkept, Bool.false_eq_true, if_false]
  | done => exact ⟨rfl, hsame⟩

/-- Whatever a run does, the names stay. -/
theorem pin_hotProcessStep (stores : NnStores) (run : HotProcess) :
    (hotProcessStep fails net stores run).2.nnParameters.pin = stores.nnParameters.pin ∧
      (hotProcessStep fails net stores run).2.nnIdx.pin = stores.nnIdx.pin := by
  cases run <;> exact ⟨rfl, rfl⟩

end

section

variable {nets : ℕ → Net} {state : Processes} {uid : ℕ}

/-- The three map calls of a run. -/
def hotCalls (fails : MainCall → Bool) (net : Net) (nn : NnMaps) : NnMaps :=
  let (pc, nn) := hotStep (mapFails fails) net .lookup nn
  let (pc, nn) := hotStep (mapFails fails) net pc nn
  (hotStep (mapFails fails) net pc nn).2

/-- The run has both maps open and goes on with the call `pc` while they hold `nn`.  Apart from
them all is as in `before`. -/
structure Opened (uid : ℕ) (fails : MainCall → Bool) (ids : NnMapIds) (before : Processes)
    (called : HotPc × NnMaps) (state : Processes) : Prop where
  run : state.runs uid = .calls (openedParameters fails ids) (openedIdx fails ids) called.1
  maps : state.stores.maps ids = called.2
  pin : state.stores.nnParameters.pin = some ids.nnParameters
  pinIdx : state.stores.nnIdx.pin = some ids.nnIdx
  loaders : state.loaders = before.loaders
  attached : state.attached = before.attached

variable {fails : MainCall → Bool} {ids : NnMapIds} {before : Processes} {called : HotPc × NnMaps}

theorem Opened.step (h : Opened uid fails ids before called state) :
    Opened uid fails ids before (hotStep (mapFails fails) (nets uid) called.1 called.2)
      (state.step nets (.hot uid fails)) := by
  obtain ⟨hrun, hmaps⟩ := hotProcessStep_opened fails (nets uid) state.stores ids called.1
  obtain ⟨hpin, hpinIdx⟩ := pin_hotProcessStep fails (nets uid) state.stores (state.runs uid)
  rw [h.maps, ← h.run] at hrun hmaps
  refine ⟨?_, hmaps, hpin.trans h.pin, hpinIdx.trans h.pinIdx, h.loaders, h.attached⟩
  simp only [Processes.step, Function.update_self]
  exact hrun

variable (nets) in
/-- The calls of a run that nothing interrupts, where both names are there. -/
theorem opened_run_hot (huid : state.runs uid = .getNnParameters)
    (hpin : state.stores.nnParameters.pin = some ids.nnParameters)
    (hpinIdx : state.stores.nnIdx.pin = some ids.nnIdx) (fails : MainCall → Bool) :
    Opened uid fails ids state (.done, hotCalls fails (nets uid) (state.stores.maps ids))
      (Interleaving.run (Processes.step nets) state (List.replicate 5 (.hot uid fails))) := by
  have hopened : Opened uid fails ids state (.lookup, state.stores.maps ids)
      (Interleaving.run (Processes.step nets) state (List.replicate 2 (.hot uid fails))) := by
    simp only [List.replicate, Interleaving.run_cons, Interleaving.run_nil, Processes.step, huid,
      hotProcessStep, hpin, hpinIdx, Function.update_self, Function.update_idem]
    exact ⟨Function.update_self .., rfl, hpin, hpinIdx, rfl, rfl⟩
  rw [List.replicate_add 2 3, Interleaving.run_append]
  exact hopened.step.step.step

variable (nets) in
/-- Without the names a run does nothing. -/
theorem run_hot_of_unpinned (huid : state.runs uid = .getNnParameters)
    (hpin : state.stores.nnParameters.pin = none) (hpinIdx : state.stores.nnIdx.pin = none)
    (fails : MainCall → Bool) :
    let after := Interleaving.run (Processes.step nets) state (List.replicate 5 (.hot uid fails))
    after.stores = state.stores ∧ after.loaders = state.loaders ∧
      after.attached = state.attached := by
  have hwrite (stores : NnStores) (nn : NnMaps) : stores.writeTo none none nn = stores := rfl
  simp only [List.replicate, Interleaving.run_cons, Interleaving.run_nil, Processes.step, huid,
    hotProcessStep, hpin, hpinIdx, ite_self, Function.update_self, hwrite, and_self]

/-- A run of `hot_updating` that nothing interrupts does its calls on the pinned maps, and nothing
if there are none. -/
theorem host_run_hot (huid : state.runs uid = .getNnParameters) (hnames : state.stores.Together)
    (fails : MainCall → Bool) :
    (Interleaving.run (Processes.step nets) state (List.replicate 5 (.hot uid fails))).host =
      { state.host with pinned := state.host.pinned.map (hotCalls fails (nets uid)) } := by
  rcases hnames.cases with ⟨hpin, hpinIdx⟩ | ⟨ids, hpin, hpinIdx⟩
  · obtain ⟨hstores, -, hattached⟩ := run_hot_of_unpinned nets huid hpin hpinIdx fails
    simp only [host, hstores, hattached, NnStores.pinned_of_none hpin, Option.map_none]
  · have hopened := opened_run_hot nets huid hpin hpinIdx fails
    simp only [host, hopened.attached, NnStores.pinned_of_pins hopened.pin hopened.pinIdx,
      hopened.maps, NnStores.pinned_of_pins hpin hpinIdx, Option.map_some]

end

end Processes

end NNeBPF

import NNeBPF.Control.HotUpdating
import NNeBPF.Library.Interleaving
import NNeBPF.Xdp.Pipeline

/-!
# Starts, stops and updates

The two maps of the network live from the start of the loader that creates them to the clean exit
of a loader: a loader that is killed leaves them pinned, and the next start takes them over and
selects slot 1 again.  So does a start that cannot attach because a program is attached already.
Runs of `hot_updating` that complete fill the slots alternately, beginning with slot 0 after each
start.

So the active slot holds an installed network exactly if an update has completed since the last
start, or an earlier session of the same maps has seen two of them.  Otherwise it is all zero, and
`standard_scaler` divides by zero.
-/

namespace NNeBPF

open Mlp

/-- What can happen to the host: a start of the loader that reaches the attach, the exit of the
attached loader through the cleanup label, its end without cleanup, a complete run of
`hot_updating`, and a frame. -/
inductive HostEvent
  | start
  | exit
  | kill
  | hotUpdate (net : Net)
  | frame (ktime : Ktime) (frame : Frame)

/-- Of the calls of a start only the attach fails, and only while a program is attached: the
interface has room for one. -/
def Host.startFails (host : Host) : LoaderCall → Bool
  | .attachXdp => host.attached.isSome
  | _ => false

def Host.step (host : Host) : HostEvent → Host
  | .start => (loaderMain host.startFails host).1
  | .exit => loaderCleanup host
  | .kill => { host with attached := none }
  | .hotUpdate net => { host with pinned := host.pinned.map (NNeBPF.hotUpdate net) }
  | .frame ktime frame =>
    match host.pinned, host.attached with
    | some nn, some (progs, flowMap) =>
      { host with
        attached := some (progs, finalMap flowMap (receive progs ktime nn frame flowMap)) }
    | _, _ => host

/-- A start selects slot 1 of the maps that it finds or creates, and it attaches the program with an
empty `flow_map` if none is attached. -/
theorem Host.step_start (host : Host) :
    host.step .start =
      ⟨some ((host.pinned.getD .zero).setIdx initialNnIdx),
        host.attached.or (some (loadedProgs, BpfMap.HashMap.empty))⟩ := by
  cases hattached : host.attached <;> simp [step, loaderMain, startFails, hattached]

/-- The host, and beside it what runs of `hot_updating` have stored into the slots of the present
maps. -/
structure History where
  host : Host
  stored : S32 → Option Net

namespace History

def fresh : History := ⟨Host.fresh, fun _ ↦ none⟩

def step (history : History) (event : HostEvent) : History where
  host := history.host.step event
  stored :=
    match event, history.host.pinned with
    | .exit, _ | .start, none => fun _ ↦ none
    | .hotUpdate net, some nn => Function.update history.stored (newNnIdx nn.activeIdx) (some net)
    | _, _ => history.stored

/-- A run of `hot_updating` finds the maps. -/
def Successful (history : History) (event : HostEvent) : Prop :=
  ∀ net, event = .hotUpdate net → history.host.pinned.isSome

end History

/-! ## Sessions -/

/-- A run of `hot_updating` has completed since the loader was last started. -/
def UpdatedSinceStart (events : List HostEvent) : Prop :=
  ∃ earlier net later, events = earlier ++ .hotUpdate net :: later ∧
    .start ∉ later ∧ .exit ∉ later

/-- Two runs of `hot_updating` have completed in one session of the present maps. -/
def UpdatedTwice (events : List HostEvent) : Prop :=
  ∃ earlier net later, events = earlier ++ .hotUpdate net :: later ∧
    UpdatedSinceStart earlier ∧ .exit ∉ later

/-- An event of a history is the last one or one of the history before. -/
theorem split_concat {events earlier later : List HostEvent} {last event : HostEvent}
    (h : events ++ [last] = earlier ++ event :: later) :
    (later = [] ∧ events = earlier ∧ last = event) ∨
      ∃ init, later = init ++ [last] ∧ events = earlier ++ event :: init := by
  rcases later.eq_nil_or_concat' with rfl | ⟨init, final, rfl⟩
  · exact Or.inl ⟨rfl, List.append_inj_left' h rfl,
      List.singleton_inj.mp (List.append_inj_right' h rfl)⟩
  · rw [← List.cons_append, ← List.append_assoc] at h
    have hlast : last = final := List.singleton_inj.mp (List.append_inj_right' h rfl)
    rw [hlast]
    exact Or.inr ⟨init, rfl, List.append_inj_left' h rfl⟩

theorem not_updatedTwice_nil : ¬ UpdatedTwice [] := by
  rintro ⟨earlier, net, later, hsplit, -⟩
  simp at hsplit

theorem updatedSinceStart_concat (events : List HostEvent) (event : HostEvent) :
    UpdatedSinceStart (events ++ [event]) ↔
      (∃ net, event = .hotUpdate net) ∨
        (UpdatedSinceStart events ∧ event ≠ .start ∧ event ≠ .exit) := by
  constructor
  · rintro ⟨earlier, net, later, hsplit, hstart, hexit⟩
    rcases split_concat hsplit with ⟨-, -, hlast⟩ | ⟨init, rfl, hinit⟩
    · exact Or.inl ⟨net, hlast⟩
    · simp only [List.mem_append, List.mem_singleton, not_or] at hstart hexit
      exact Or.inr ⟨⟨earlier, net, init, hinit, hstart.1, hexit.1⟩, Ne.symm hstart.2,
        Ne.symm hexit.2⟩
  · rintro (⟨net, rfl⟩ | ⟨⟨earlier, net, later, rfl, hstart, hexit⟩, hnotStart, hnotExit⟩)
    · exact ⟨events, net, [], rfl, List.not_mem_nil, List.not_mem_nil⟩
    · refine ⟨earlier, net, later ++ [event], by simp, ?_, ?_⟩
      · simp [hstart, Ne.symm hnotStart]
      · simp [hexit, Ne.symm hnotExit]

theorem updatedTwice_concat (events : List HostEvent) (event : HostEvent) :
    UpdatedTwice (events ++ [event]) ↔
      ((∃ net, event = .hotUpdate net) ∧ UpdatedSinceStart events) ∨
        (UpdatedTwice events ∧ event ≠ .exit) := by
  constructor
  · rintro ⟨earlier, net, later, hsplit, hearlier, hexit⟩
    rcases split_concat hsplit with ⟨-, hinit, hlast⟩ | ⟨init, rfl, hinit⟩
    · rw [hinit]
      exact Or.inl ⟨⟨net, hlast⟩, hearlier⟩
    · simp only [List.mem_append, List.mem_singleton, not_or] at hexit
      exact Or.inr ⟨⟨earlier, net, init, hinit, hearlier, hexit.1⟩, Ne.symm hexit.2⟩
  · rintro (⟨⟨net, rfl⟩, hearlier⟩ | ⟨⟨earlier, net, later, rfl, hearlier, hexit⟩, hnotExit⟩)
    · exact ⟨events, net, [], rfl, hearlier, List.not_mem_nil⟩
    · refine ⟨earlier, net, later ++ [event], by simp, hearlier, ?_⟩
      simp [hexit, Ne.symm hnotExit]

/-! ## What the slots hold -/

/-- How the present maps depend on the events so far. -/
structure SlotAccount (events : List HostEvent) (nn : NnMaps) (stored : S32 → Option Net) :
    Prop where
  valid : ValidIdx nn.activeIdx
  slots : ∀ slot, ValidIdx slot →
    BpfMap.ArrayMap.lookup nn.nnParameters slot = some ((stored slot).getD Net.zero)
  zero : nn.activeIdx = 0 → (stored 0).isSome ∧ UpdatedSinceStart events
  one : (stored 1).isSome ↔ UpdatedTwice events
  back : nn.activeIdx = 1 → UpdatedSinceStart events → UpdatedTwice events

section

variable {events : List HostEvent} {nn : NnMaps} {stored : S32 → Option Net}

/-- The active slot holds an installed network exactly after an update in the present session or
two updates in an earlier one. -/
theorem SlotAccount.installed_iff (h : SlotAccount events nn stored) :
    (stored nn.activeIdx).isSome ↔ UpdatedSinceStart events ∨ UpdatedTwice events := by
  rcases h.valid with hzero | hone
  · obtain ⟨hstored, hsince⟩ := h.zero hzero
    rw [hzero]
    exact ⟨fun _ ↦ Or.inl hsince, fun _ ↦ hstored⟩
  · rw [hone, h.one]
    exact ⟨Or.inr, fun hor ↦ hor.elim (h.back hone) id⟩

theorem slotAccount_of_idle {event : HostEvent} (hstart : event ≠ .start) (hexit : event ≠ .exit)
    (hupdate : ∀ net, event ≠ .hotUpdate net) (h : SlotAccount events nn stored) :
    SlotAccount (events ++ [event]) nn stored := by
  have hsince : UpdatedSinceStart (events ++ [event]) ↔ UpdatedSinceStart events := by
    rw [updatedSinceStart_concat]
    simp [hstart, hexit, hupdate]
  have htwice : UpdatedTwice (events ++ [event]) ↔ UpdatedTwice events := by
    rw [updatedTwice_concat]
    simp [hexit, hupdate]
  refine ⟨h.valid, h.slots, ?_, ?_, ?_⟩
  · rw [hsince]
    exact h.zero
  · rw [htwice]
    exact h.one
  · rw [hsince, htwice]
    exact h.back

/-- A start selects slot 1, whatever is in it. -/
theorem slotAccount_start (hslots : ∀ slot, ValidIdx slot →
      BpfMap.ArrayMap.lookup nn.nnParameters slot = some ((stored slot).getD Net.zero))
    (hone : (stored 1).isSome ↔ UpdatedTwice events) :
    SlotAccount (events ++ [.start]) (nn.setIdx initialNnIdx) stored := by
  have hidx : (nn.setIdx initialNnIdx).activeIdx = 1 := NnMaps.activeIdx_setIdx nn initialNnIdx
  have hsince : ¬ UpdatedSinceStart (events ++ [.start]) := by simp [updatedSinceStart_concat]
  have htwice : UpdatedTwice (events ++ [.start]) ↔ UpdatedTwice events := by
    simp [updatedTwice_concat]
  refine ⟨Or.inr hidx, hslots, ?_, ?_, ?_⟩
  · intro hzero
    rw [hidx] at hzero
    cases hzero
  · rw [htwice]
    exact hone
  · intro _ hupdated
    exact absurd hupdated hsince

/-- A complete update fills the other slot and selects it. -/
theorem slotAccount_hotUpdate (net : Net) (h : SlotAccount events nn stored) :
    SlotAccount (events ++ [.hotUpdate net]) (hotUpdate net nn)
      (Function.update stored (newNnIdx nn.activeIdx) (some net)) := by
  have hsince : UpdatedSinceStart (events ++ [.hotUpdate net]) := by
    simp [updatedSinceStart_concat]
  have htwice : UpdatedTwice (events ++ [.hotUpdate net]) ↔
      UpdatedSinceStart events ∨ UpdatedTwice events := by simp [updatedTwice_concat]
  have hslots : ∀ slot, ValidIdx slot →
      BpfMap.ArrayMap.lookup (hotUpdate net nn).nnParameters slot =
        some ((Function.update stored (newNnIdx nn.activeIdx) (some net) slot).getD Net.zero) := by
    intro slot hslot
    rw [hotUpdate_eq, NnMaps.nnParameters_setIdx]
    rcases eq_or_ne slot (newNnIdx nn.activeIdx) with rfl | hne
    · rw [Function.update_self]
      exact NnMaps.lookup_setParameters_self _ _ hslot.lt
    · rw [Function.update_of_ne hne]
      exact (NnMaps.lookup_setParameters_of_ne _ _ hne).trans (h.slots slot hslot)
  refine ⟨?_, hslots, ?_, ?_, ?_⟩
  · rw [activeIdx_hotUpdate]
    exact validIdx_newNnIdx h.valid
  · intro hzero
    rw [activeIdx_hotUpdate] at hzero
    rw [hzero, Function.update_self]
    exact ⟨rfl, hsince⟩
  · rw [htwice]
    rcases h.valid with hactive | hactive
    · have hother : newNnIdx nn.activeIdx = 1 := by
        rw [hactive]
        decide
      rw [hother, Function.update_self]
      exact ⟨fun _ ↦ Or.inl (h.zero hactive).2, fun _ ↦ rfl⟩
    · have hother : newNnIdx nn.activeIdx = 0 := by
        rw [hactive]
        decide
      rw [hother, Function.update_of_ne (by decide), h.one]
      exact ⟨Or.inr, fun hor ↦ hor.elim (h.back hactive) id⟩
  · intro hone _
    rw [activeIdx_hotUpdate] at hone
    have hactive : nn.activeIdx = 0 :=
      h.valid.resolve_right ((newNnIdx_eq_iff h.valid (Or.inr rfl)).mp hone)
    exact htwice.mpr (Or.inl (h.zero hactive).2)

end

/-- The host and the events that led to it. -/
structure Account (events : List HostEvent) (history : History) : Prop where
  progs : ∀ progs flowMap, history.host.attached = some (progs, flowMap) → progs = loadedProgs
  source : ∀ slot net, history.stored slot = some net → .hotUpdate net ∈ events
  unpinned : history.host.pinned = none → ¬ UpdatedTwice events
  pinned : ∀ nn, history.host.pinned = some nn → SlotAccount events nn history.stored

theorem account_fresh : Account [] History.fresh where
  progs := by
    intro progs flowMap h
    cases h
  source := by
    intro slot net h
    cases h
  unpinned := fun _ ↦ not_updatedTwice_nil
  pinned := by
    intro nn h
    cases h

section

variable {events : List HostEvent} {history : History}

theorem account_start (h : Account events history) :
    Account (events ++ [.start]) (history.step .start) := by
  have hprogs : ∀ progs flowMap, (history.step .start).host.attached = some (progs, flowMap) →
      progs = loadedProgs := by
    intro progs flowMap hattached
    simp only [History.step, Host.step_start] at hattached
    cases hbefore : history.host.attached with
    | none =>
      rw [hbefore, Option.none_or, Option.some.injEq, Prod.mk.injEq] at hattached
      exact hattached.1.symm
    | some attached =>
      rw [hbefore, Option.some_or] at hattached
      exact h.progs progs flowMap (hbefore.trans hattached)
  cases hpinned : history.host.pinned with
  | none =>
    have hmaps : (history.step .start).host.pinned = some (NnMaps.zero.setIdx initialNnIdx) := by
      simp [History.step, Host.step_start, hpinned]
    have hstored : (history.step .start).stored = fun _ ↦ none := by
      simp only [History.step, hpinned]
    refine ⟨hprogs, ?_, ?_, ?_⟩
    · intro slot net hslot
      rw [hstored] at hslot
      cases hslot
    · intro hnone
      rw [hmaps] at hnone
      cases hnone
    · intro nn hnn
      obtain rfl : NnMaps.zero.setIdx initialNnIdx = nn := Option.some.inj (hmaps.symm.trans hnn)
      rw [hstored]
      apply slotAccount_start
      · intro slot hslot
        rcases hslot with rfl | rfl <;> rfl
      · simp [h.unpinned hpinned]
  | some old =>
    have hmaps : (history.step .start).host.pinned = some (old.setIdx initialNnIdx) := by
      simp [History.step, Host.step_start, hpinned]
    have hstored : (history.step .start).stored = history.stored := by
      simp only [History.step, hpinned]
    refine ⟨hprogs, ?_, ?_, ?_⟩
    · intro slot net hslot
      rw [hstored] at hslot
      exact List.mem_append_left _ (h.source slot net hslot)
    · intro hnone
      rw [hmaps] at hnone
      cases hnone
    · intro nn hnn
      obtain rfl : old.setIdx initialNnIdx = nn := Option.some.inj (hmaps.symm.trans hnn)
      rw [hstored]
      exact slotAccount_start (h.pinned old hpinned).slots (h.pinned old hpinned).one

variable (events history) in
theorem account_exit : Account (events ++ [.exit]) (history.step .exit) where
  progs := by
    intro progs flowMap hattached
    cases hattached
  source := by
    intro slot net hslot
    cases hslot
  unpinned := by
    intro _ htwice
    simp [updatedTwice_concat] at htwice
  pinned := by
    intro nn hnn
    cases hnn

/-- An event that leaves the maps alone. -/
theorem account_of_idle {event : HostEvent} (hstart : event ≠ .start) (hexit : event ≠ .exit)
    (hupdate : ∀ net, event ≠ .hotUpdate net) (h : Account events history) {after : History}
    (hpinned : after.host.pinned = history.host.pinned) (hstored : after.stored = history.stored)
    (hprogs : ∀ progs flowMap, after.host.attached = some (progs, flowMap) →
      progs = loadedProgs) :
    Account (events ++ [event]) after := by
  refine ⟨hprogs, ?_, ?_, ?_⟩
  · intro slot net hslot
    rw [hstored] at hslot
    exact List.mem_append_left _ (h.source slot net hslot)
  · intro hnone htwice
    rw [hpinned] at hnone
    rw [updatedTwice_concat] at htwice
    simp only [hupdate, exists_false, false_and, false_or] at htwice
    exact h.unpinned hnone htwice.1
  · intro nn hnn
    rw [hpinned] at hnn
    rw [hstored]
    exact slotAccount_of_idle hstart hexit hupdate (h.pinned nn hnn)

theorem account_hotUpdate {net : Net} (hmaps : history.host.pinned.isSome)
    (h : Account events history) :
    Account (events ++ [.hotUpdate net]) (history.step (.hotUpdate net)) := by
  obtain ⟨old, hold⟩ := Option.isSome_iff_exists.mp hmaps
  have hpinned : (history.step (.hotUpdate net)).host.pinned = some (hotUpdate net old) := by
    simp [History.step, Host.step, hold]
  have hstored : (history.step (.hotUpdate net)).stored =
      Function.update history.stored (newNnIdx old.activeIdx) (some net) := by
    simp only [History.step, hold]
  refine ⟨h.progs, ?_, ?_, ?_⟩
  · intro slot other hslot
    rw [hstored] at hslot
    rcases eq_or_ne slot (newNnIdx old.activeIdx) with rfl | hne
    · rw [Function.update_self] at hslot
      cases hslot
      simp
    · rw [Function.update_of_ne hne] at hslot
      exact List.mem_append_left _ (h.source slot other hslot)
  · intro hnone
    rw [hpinned] at hnone
    cases hnone
  · intro nn hnn
    obtain rfl : hotUpdate net old = nn := Option.some.inj (hpinned.symm.trans hnn)
    rw [hstored]
    exact slotAccount_hotUpdate net (h.pinned old hold)

theorem account_step {event : HostEvent} (hsuccess : History.Successful history event)
    (h : Account events history) : Account (events ++ [event]) (history.step event) := by
  cases event with
  | start => exact account_start h
  | exit => exact account_exit events history
  | hotUpdate net => exact account_hotUpdate (hsuccess net rfl) h
  | kill =>
    have hpinned : (history.step .kill).host.pinned = history.host.pinned := rfl
    have hstored : (history.step .kill).stored = history.stored := rfl
    apply account_of_idle (by simp) (by simp) (by simp) h hpinned hstored
    intro progs flowMap hattached
    cases hattached
  | frame ktime frame =>
    have hpinned : (history.step (.frame ktime frame)).host.pinned = history.host.pinned := by
      simp only [History.step, Host.step]
      split <;> rfl
    have hstored : (history.step (.frame ktime frame)).stored = history.stored := rfl
    apply account_of_idle (by simp) (by simp) (by simp) h hpinned hstored
    intro progs flowMap hattached
    simp only [History.step, Host.step] at hattached
    split at hattached
    · rename_i hattachedBefore
      cases hattached
      exact h.progs _ _ hattachedBefore
    · exact h.progs progs flowMap hattached

theorem account_run (events : List HostEvent)
    (hsuccess : Interleaving.Throughout History.step History.Successful History.fresh events) :
    Account events (Interleaving.run History.step History.fresh events) := by
  induction events using List.reverseRecOn with
  | nil => exact account_fresh
  | append_singleton events event ih =>
    obtain ⟨hinit, hlast⟩ := Interleaving.throughout_append hsuccess
    rw [Interleaving.run_concat]
    exact account_step (hlast [] event [] rfl) (ih hinit)

end

/-! ## The active slot -/

/-- `standard_scaler` divides by zero in this execution. -/
def Execution.DividesByZero (nn : NnMaps) (frame : Frame) (execution : Execution) : Prop :=
  execution.program = .xdpPreprocessing ∧
    ∃ f attr net i, flowTuple frame = some f ∧ execution.start.lookup f = some attr ∧
      BpfMap.ArrayMap.lookup nn.nnParameters attr.nnIdx = some net ∧ net.scale.get i = 0

/-- With positive scales in the active slot no frame makes `standard_scaler` divide by zero. -/
theorem not_dividesByZero {nn : NnMaps} {net : Net}
    (hnet : BpfMap.ArrayMap.lookup nn.nnParameters nn.activeIdx = some net)
    (hscale : ∀ i, 1 ≤ (net.scale.get i).toInt) (ktime : Ktime) (frame : Frame)
    (flowMap : FlowMap) :
    ∀ execution ∈ receive loadedProgs ktime nn frame flowMap,
      ¬ execution.DividesByZero nn frame := by
  rintro execution hmem ⟨hprogram, f, attr, read, i, hframe, hattr, hread, hzero⟩
  have hidx := nnIdx_of_mem_receive hnet hmem hprogram hframe hattr
  rw [hidx, hnet] at hread
  obtain rfl : net = read := Option.some.inj hread
  have hpositive := hscale i
  rw [hzero] at hpositive
  exact absurd hpositive (by decide)

/-- The active slot holds a network that a run of `hot_updating` has stored since the maps were
created exactly if a run has completed since the last start of the loader or two runs have completed
in one earlier session of the maps; otherwise it holds only zeros.  Where the stored networks are
the shipped one, its scales are positive then and nothing divides by zero. -/
theorem installed_iff_updated {events : List HostEvent}
    (hsuccess : Interleaving.Throughout History.step History.Successful History.fresh events)
    {nn : NnMaps}
    (hpinned : (Interleaving.run History.step History.fresh events).host.pinned = some nn) :
    let reached := Interleaving.run History.step History.fresh events
    let updated := UpdatedSinceStart events ∨ UpdatedTwice events
    ((∃ net, reached.stored nn.activeIdx = some net ∧
        BpfMap.ArrayMap.lookup nn.nnParameters nn.activeIdx = some net) ↔ updated) ∧
      (¬ updated → BpfMap.ArrayMap.lookup nn.nnParameters nn.activeIdx = some Net.zero) ∧
      (updated → (∀ net, .hotUpdate net ∈ events → net = shippedNet) →
        (∀ net, BpfMap.ArrayMap.lookup nn.nnParameters nn.activeIdx = some net →
          ∀ i, 1 ≤ (net.scale.get i).toInt) ∧
        ∀ progs flowMap, reached.host.attached = some (progs, flowMap) →
          ∀ ktime frame, ∀ execution ∈ receive progs ktime nn frame flowMap,
            ¬ execution.DividesByZero nn frame) := by
  intro reached updated
  have haccount : Account events reached := account_run events hsuccess
  have hslots : SlotAccount events nn reached.stored := haccount.pinned nn hpinned
  have hinstalled : (reached.stored nn.activeIdx).isSome ↔ updated := hslots.installed_iff
  have hactive := hslots.slots nn.activeIdx hslots.valid
  refine ⟨?_, ?_, ?_⟩
  · rw [← hinstalled, Option.isSome_iff_exists]
    constructor
    · rintro ⟨net, hstored, -⟩
      exact ⟨net, hstored⟩
    · rintro ⟨net, hstored⟩
      rw [hstored] at hactive
      exact ⟨net, hstored, hactive⟩
  · intro hnot
    rw [← hinstalled, Option.not_isSome_iff_eq_none] at hnot
    rw [hnot] at hactive
    exact hactive
  · intro hupdated hshipped
    obtain ⟨net, hstored⟩ := Option.isSome_iff_exists.mp (hinstalled.mpr hupdated)
    obtain rfl : net = shippedNet := hshipped net (haccount.source _ net hstored)
    rw [hstored] at hactive
    constructor
    · intro read hread
      obtain rfl : shippedNet = read := Option.some.inj (hactive.symm.trans hread)
      exact shippedNet_scale_pos
    · intro progs flowMap hattached ktime frame
      rw [haccount.progs progs flowMap hattached]
      exact not_dividesByZero hactive shippedNet_scale_pos ktime frame flowMap

/-- A start, one update and a frame. -/
theorem installed_iff_updated_shippedNet :
    let events : List HostEvent :=
      [.start, .hotUpdate shippedNet, .frame ⟨9, 9, 9, 9, 9⟩ (hostFrame 7 40 true)]
    ∃ nn, (Interleaving.run History.step History.fresh events).host.pinned = some nn ∧
      ∀ net, BpfMap.ArrayMap.lookup nn.nnParameters nn.activeIdx = some net →
        ∀ i, 1 ≤ (net.scale.get i).toInt := by
  intro events
  have hsuccess :
      Interleaving.Throughout History.step History.Successful History.fresh events := by
    have hstart : History.Successful History.fresh .start := by
      intro net hnet
      cases hnet
    have hupdate : History.Successful (History.fresh.step .start) (.hotUpdate shippedNet) :=
      fun _ _ ↦ rfl
    have hframe (history : History) (ktime : Ktime) (frame : Frame) :
        History.Successful history (.frame ktime frame) := by
      intro net hnet
      cases hnet
    simp only [events, Interleaving.throughout_cons, Interleaving.throughout_nil, and_true]
    exact ⟨hstart, hupdate, hframe _ _ _⟩
  have hpinned : (Interleaving.run History.step History.fresh events).host.pinned =
      some (hotUpdate shippedNet (NnMaps.zero.setIdx initialNnIdx)) := rfl
  have hupdated : UpdatedSinceStart events :=
    ⟨[.start], shippedNet, [.frame ⟨9, 9, 9, 9, 9⟩ (hostFrame 7 40 true)], rfl, by simp, by simp⟩
  have hshipped : ∀ net, .hotUpdate net ∈ events → net = shippedNet := by
    intro net hnet
    simpa [events] using hnet
  exact ⟨_, hpinned,
    ((installed_iff_updated hsuccess hpinned).2.2 (Or.inl hupdated) hshipped).1⟩

/-- After a start alone the active slot has never been written, and the first closing packet divides
by zero. -/
theorem dividesByZero_after_start :
    ∃ nn progs flowMap,
      (Interleaving.run History.step History.fresh [.start]).host =
          ⟨some nn, some (progs, flowMap)⟩ ∧
        (Interleaving.run History.step History.fresh [.start]).stored nn.activeIdx = none ∧
        ∃ execution ∈ receive progs ⟨9, 9, 9, 9, 9⟩ nn (hostFrame 7 40 true) flowMap,
          execution.DividesByZero nn (hostFrame 7 40 true) := by
  set nn := NnMaps.zero.setIdx initialNnIdx with hnn
  have hnet : BpfMap.ArrayMap.lookup nn.nnParameters nn.activeIdx = some Net.zero := rfl
  have hattr := lookup_updateFlowAttribute_of_canCreate
    (BpfMap.HashMap.canCreate_empty (by decide) (hostFlow 7)) (hostFrame 7 40 true).tcpHdr
    (hostFrame 7 40 true).ipHdr.packetLength ⟨9, 9, 9, 9, 9⟩
  refine ⟨nn, loadedProgs, BpfMap.HashMap.empty, rfl, rfl, ?_⟩
  rw [receive_of_closes (flowTuple_hostFrame 7 40 true) (monitored_hostFlow 7)
    (closes_hostFrame 7 40 true) _ nn hnet hattr]
  refine ⟨_, List.mem_cons_of_mem _ (List.mem_cons_self ..), rfl, hostFlow 7, _, Net.zero, 0,
    flowTuple_hostFrame 7 40 true, lookup_modify_const hattr _, hnet, ?_⟩
  decide

end NNeBPF

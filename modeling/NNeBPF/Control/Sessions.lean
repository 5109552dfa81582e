import NNeBPF.Control.Lifetime
import NNeBPF.Xdp.Monitor

/-!
# From training to the printed line

Over any life of the host, with starts, stops, crashes, updates and frames in any order, a session
is the time since the program on the interface was attached.  The frames of the session alone make
its map.  A further start in the session cannot attach, but it selects slot 1, so the last update
since the last start alone decides which network is selected.

So a line that is printed for a closing packet is the opinion of the network that was trained,
exported and installed last, on six statistics of the packets of the flow in this session.
-/

namespace NNeBPF

open Mlp

/-- The host, the frames that the attached program has seen since it was attached, and the network
that was installed last since the last start. -/
structure Session where
  host : Host
  frames : List Arrival
  installed : Option Net

namespace Session

def fresh : Session := ⟨Host.fresh, [], none⟩

def step (session : Session) (event : HostEvent) : Session where
  host := session.host.step event
  frames :=
    match event, session.host.pinned, session.host.attached with
    | .frame ktime frame, some nn, some _ => session.frames ++ [⟨frame, ktime, nn⟩]
    | .frame _ _, _, _ | .hotUpdate _, _, _ | .start, _, some _ => session.frames
    | .start, _, none | .exit, _, _ | .kill, _, _ => []
  installed :=
    match event with
    | .start | .exit => none
    | .hotUpdate net => some net
    | .frame _ _ | .kill => session.installed

/-- The packets of `f` in the session, up to the one that arrives now. -/
def packetsOf (session : Session) (f : Flow) (last : Arrival) : List Arrival :=
  (session.frames ++ [last]).filter (Arrival.belongsTo f)

/-- What a session tells about the maps. -/
structure Account (session : Session) : Prop where
  attached : ∀ progs flowMap, session.host.attached = some (progs, flowMap) →
    progs = loadedProgs ∧ flowMap = mapAfter session.frames
  valid : ∀ nn, session.host.pinned = some nn → ValidIdx nn.activeIdx
  active : ∀ nn net, session.host.pinned = some nn → session.installed = some net →
    BpfMap.ArrayMap.lookup nn.nnParameters nn.activeIdx = some net

theorem account_fresh : Account fresh := by
  refine ⟨?_, ?_, ?_⟩ <;> intros <;> contradiction

section

variable {session : Session}

/-- A start attaches the program with an empty map, or it finds one attached and leaves its map;
and it selects slot 1. -/
theorem account_start (h : Account session) : Account (session.step .start) := by
  refine ⟨?_, ?_, ?_⟩
  · intro progs flowMap hattached
    simp only [step, Host.step_start] at hattached
    cases hbefore : session.host.attached with
    | none =>
      rw [hbefore, Option.none_or, Option.some.injEq, Prod.mk.injEq] at hattached
      simp only [step, hbefore]
      exact ⟨hattached.1.symm, hattached.2.symm⟩
    | some attached =>
      rw [hbefore, Option.some_or] at hattached
      simp only [step, hbefore]
      exact h.attached progs flowMap (hbefore.trans hattached)
  · intro nn hnn
    simp only [step, Host.step_start, Option.some.injEq] at hnn
    rw [← hnn, NnMaps.activeIdx_setIdx]
    exact Or.inr rfl
  · intro nn net _ hinstalled
    cases hinstalled

/-- A complete update installs its network, and it leaves the map of the flows alone. -/
theorem account_hotUpdate (h : Account session) (net : Net) :
    Account (session.step (.hotUpdate net)) := by
  have hpinned {nn : NnMaps} (hnn : (session.step (.hotUpdate net)).host.pinned = some nn) :
      ∃ old, session.host.pinned = some old ∧ hotUpdate net old = nn :=
    Option.map_eq_some_iff.mp hnn
  refine ⟨h.attached, ?_, ?_⟩
  · intro nn hnn
    obtain ⟨old, hold, heq⟩ := hpinned hnn
    rw [← heq, activeIdx_hotUpdate]
    exact validIdx_newNnIdx (h.valid old hold)
  · intro nn other hnn hinstalled
    obtain ⟨old, hold, heq⟩ := hpinned hnn
    have hother : net = other := Option.some.inj hinstalled
    rw [← heq, ← hother]
    exact lookup_hotUpdate_activeIdx net (h.valid old hold)

/-- A frame is one more frame of the session. -/
theorem account_frame (h : Account session) (ktime : Ktime) (frame : Frame) :
    Account (session.step (.frame ktime frame)) := by
  cases hpinned : session.host.pinned with
  | none =>
    have hstep : session.step (.frame ktime frame) = session := by
      simp [step, Host.step, hpinned]
    rwa [hstep]
  | some nn =>
    cases hattached : session.host.attached with
    | none =>
      have hstep : session.step (.frame ktime frame) = session := by
        simp [step, Host.step, hpinned, hattached]
      rwa [hstep]
    | some attached =>
      obtain ⟨hprogs, hflowMap⟩ := h.attached attached.1 attached.2 hattached
      have hmaps : (session.step (.frame ktime frame)).host.pinned = session.host.pinned := by
        simp [step, Host.step, hpinned, hattached]
      have hframes : (session.step (.frame ktime frame)).frames =
          session.frames ++ [⟨frame, ktime, nn⟩] := by
        simp only [step, hpinned, hattached]
      refine ⟨?_, ?_, ?_⟩
      · intro progs flowMap hafter
        simp only [step, Host.step, hpinned, hattached, Option.some.injEq, Prod.mk.injEq] at hafter
        rw [hframes, mapAfter_concat, ← hflowMap, ← hafter.1, ← hafter.2, hprogs]
        exact ⟨rfl, rfl⟩
      · intro other hother
        exact h.valid other (hmaps.symm.trans hother)
      · intro other net hother hinstalled
        exact h.active other net (hmaps.symm.trans hother) hinstalled

theorem account_step (h : Account session) (event : HostEvent) : Account (session.step event) := by
  cases event with
  | start => exact account_start h
  | hotUpdate net => exact account_hotUpdate h net
  | frame ktime frame => exact account_frame h ktime frame
  | exit => refine ⟨?_, ?_, ?_⟩ <;> intros <;> contradiction
  | kill =>
    refine ⟨?_, h.valid, h.active⟩
    intro progs flowMap hattached
    cases hattached

end

theorem account_run (events : List HostEvent) : Account (Interleaving.run step fresh events) := by
  have hstep : ∀ session event, Account session → Account (step session event) :=
    fun _ event haccount ↦ account_step haccount event
  exact Interleaving.run_invariant step hstep account_fresh events

end Session

end NNeBPF

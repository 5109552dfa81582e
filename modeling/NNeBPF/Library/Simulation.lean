import NNeBPF.Library.Interleaving

/-!
# Logs and simulations

A machine whose steps put something out has, beside the state that a run reaches, the log of the
run.  A simulation answers every event of one machine by a list of events of another one, which may
be empty or long.  What it says of single events holds of whole runs, for the states and the logs.
-/

namespace Interleaving

section

variable {State Event Output : Type*} (step : State → Event → State)
  (emit : State → Event → List Output)

/-- Everything that a run puts out, in order. -/
def trace (state : State) : List Event → List Output
  | [] => []
  | event :: events => emit state event ++ trace (step state event) events

@[simp]
theorem trace_nil (state : State) : trace step emit state [] = [] := rfl

@[simp]
theorem trace_cons (state : State) (event : Event) (events : List Event) :
    trace step emit state (event :: events) =
      emit state event ++ trace step emit (step state event) events := rfl

theorem trace_append (state : State) (first second : List Event) :
    trace step emit state (first ++ second) =
      trace step emit state first ++ trace step emit (run step state first) second := by
  induction first generalizing state with
  | nil => rfl
  | cons event first ih =>
    simp only [List.cons_append, trace_cons, run_cons, ih, List.append_assoc]

/-- Two machines that put out the same after every part of a run have the same log. -/
theorem trace_congr {OtherState : Type*} {step : State → Event → State}
    {emit : State → Event → List Output} {otherStep : OtherState → Event → OtherState}
    {otherEmit : OtherState → Event → List Output} {state : State} {other : OtherState}
    {events : List Event}
    (h : ∀ earlier event later, events = earlier ++ event :: later →
      emit (run step state earlier) event = otherEmit (run otherStep other earlier) event) :
    trace step emit state events = trace otherStep otherEmit other events := by
  induction events generalizing state other with
  | nil => rfl
  | cons event events ih =>
    have hfirst : emit state event = otherEmit other event := h [] event events rfl
    have hrest : trace step emit (step state event) events =
        trace otherStep otherEmit (otherStep other event) events := by
      apply ih
      intro earlier next later hsplit
      exact h (event :: earlier) next later (by rw [hsplit, List.cons_append])
    rw [trace_cons, trace_cons, hfirst, hrest]

end

section

variable {State Event OtherState OtherEvent Output : Type*} {step : State → Event → State}
  {emit : State → Event → List Output} {otherStep : OtherState → OtherEvent → OtherState}
  {otherEmit : OtherState → OtherEvent → List Output}

/-- Related states stay related when one machine takes an admitted event and the other one takes its
translation, and the two put out the same on the way. -/
structure Simulation (step : State → Event → State) (emit : State → Event → List Output)
    (otherStep : OtherState → OtherEvent → OtherState)
    (otherEmit : OtherState → OtherEvent → List Output) (admitted : Event → Prop)
    (related : State → OtherState → Prop) (translate : State → Event → List OtherEvent) :
    Prop where
  states : ∀ state other event, admitted event → related state other →
    related (step state event) (run otherStep other (translate state event))
  logs : ∀ state other event, admitted event → related state other →
    emit state event = trace otherStep otherEmit other (translate state event)

variable {admitted : Event → Prop} {related : State → OtherState → Prop}
  {translate : State → Event → List OtherEvent}

/-- The translation of a whole run is the log of the translations. -/
theorem Simulation.related_run
    (h : Simulation step emit otherStep otherEmit admitted related translate) {state : State}
    {other : OtherState} (hrelated : related state other) {events : List Event}
    (hevents : ∀ event ∈ events, admitted event) :
    related (run step state events) (run otherStep other (trace step translate state events)) := by
  induction events generalizing state other with
  | nil => exact hrelated
  | cons event events ih =>
    have hstep := h.states state other event (hevents event List.mem_cons_self) hrelated
    rw [trace_cons, run_append, run_cons]
    exact ih hstep fun later hlater ↦ hevents later (List.mem_cons_of_mem _ hlater)

theorem Simulation.trace_eq
    (h : Simulation step emit otherStep otherEmit admitted related translate) {state : State}
    {other : OtherState} (hrelated : related state other) {events : List Event}
    (hevents : ∀ event ∈ events, admitted event) :
    trace step emit state events =
      trace otherStep otherEmit other (trace step translate state events) := by
  induction events generalizing state other with
  | nil => rfl
  | cons event events ih =>
    have hevent := hevents event List.mem_cons_self
    have hrest := ih (h.states state other event hevent hrelated)
      fun later hlater ↦ hevents later (List.mem_cons_of_mem _ hlater)
    rw [trace_cons step translate, trace_append, trace_cons,
      h.logs state other event hevent hrelated, hrest]

end

section

variable {State Event OtherState OtherEvent Output : Type*} {step : State → Event → State}
  {emit : State → Event → List Output} {otherStep : OtherState → OtherEvent → OtherState}
  {otherEmit : OtherState → OtherEvent → List Output} {admitted : State → Event → Prop}
  {related : State → OtherState → Prop} {translate : State → Event → List OtherEvent}

/-- The same for events that are admitted in the states in which they happen. -/
theorem related_run_throughout
    (hstates : ∀ state other event, admitted state event → related state other →
      related (step state event) (run otherStep other (translate state event)))
    (hlogs : ∀ state other event, admitted state event → related state other →
      emit state event = trace otherStep otherEmit other (translate state event))
    {state : State} {other : OtherState} (hrelated : related state other) {events : List Event}
    (hevents : Throughout step admitted state events) :
    related (run step state events) (run otherStep other (trace step translate state events)) ∧
      trace step emit state events =
        trace otherStep otherEmit other (trace step translate state events) := by
  induction events generalizing state other with
  | nil => exact ⟨hrelated, rfl⟩
  | cons event events ih =>
    obtain ⟨hevent, hrest⟩ := throughout_cons.mp hevents
    obtain ⟨hstate, hlog⟩ := ih (hstates state other event hevent hrelated) hrest
    rw [trace_cons step translate, run_append, run_cons, trace_append, trace_cons,
      hlogs state other event hevent hrelated, hlog]
    exact ⟨hstate, rfl⟩

end

section

variable {State Event : Type*} (step : State → Event → State)

/-- A translation that keeps or drops each event leaves a part of the run, with all events that it
never drops. -/
theorem trace_sublist {translate : State → Event → List Event} {kept : Event → Bool}
    (htranslate : ∀ state event, translate state event = [event] ∨
      translate state event = [] ∧ kept event = false) (state : State) (events : List Event) :
    (trace step translate state events).Sublist events ∧
      (trace step translate state events).filter kept = events.filter kept := by
  induction events generalizing state with
  | nil => exact ⟨List.Sublist.slnil, rfl⟩
  | cons event events ih =>
    obtain ⟨hsublist, hfilter⟩ := ih (step state event)
    rw [trace_cons]
    rcases htranslate state event with hone | ⟨hnone, hdropped⟩
    · rw [hone, List.singleton_append]
      refine ⟨hsublist.cons_cons event, ?_⟩
      rw [List.filter_cons, List.filter_cons, hfilter]
    · rw [hnone, List.nil_append]
      refine ⟨hsublist.cons event, ?_⟩
      rw [List.filter_cons_of_neg (by simp [hdropped]), hfilter]

/-- A translation that keeps chosen events and drops the others filters a run. -/
theorem trace_chosen (chosen : Event → Bool) (state : State) (events : List Event) :
    trace step (fun _ event ↦ if chosen event then [event] else []) state events =
      events.filter chosen := by
  induction events generalizing state with
  | nil => rfl
  | cons event events ih =>
    rw [trace_cons, ih, List.filter_cons]
    split_ifs <;> rfl

end

end Interleaving

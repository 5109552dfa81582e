import Mathlib.Data.List.Basic

/-!
# Interleavings of atomic steps

A system whose parties take atomic steps is a state type with a step function; an interleaving is
the list of the steps in the order in which they happen, whoever takes them.  A property that
every step keeps holds after every interleaving, and a party whose view no foreign step changes
observes the same things when the foreign steps are left out.
-/

namespace Interleaving

variable {State Event Observation : Type*} (step : State → Event → State)

/-- The state after an interleaving. -/
def run (state : State) (events : List Event) : State := events.foldl step state

@[simp]
theorem run_nil (state : State) : run step state [] = state := rfl

@[simp]
theorem run_cons (state : State) (event : Event) (events : List Event) :
    run step state (event :: events) = run step (step state event) events := rfl

theorem run_append (state : State) (first second : List Event) :
    run step state (first ++ second) = run step (run step state first) second :=
  List.foldl_append

theorem run_concat (state : State) (events : List Event) (event : Event) :
    run step state (events ++ [event]) = step (run step state events) event := by
  rw [run_append, run_cons, run_nil]

/-- Every event is admitted in the state in which it happens. -/
def Throughout (admitted : State → Event → Prop) (state : State) (events : List Event) : Prop :=
  ∀ earlier event later, events = earlier ++ event :: later →
    admitted (run step state earlier) event

variable {step} in
@[simp]
theorem throughout_nil {admitted : State → Event → Prop} {state : State} :
    Throughout step admitted state [] := by
  intro earlier event later hsplit
  simp at hsplit

variable {step} in
theorem throughout_cons {admitted : State → Event → Prop} {state : State} {event : Event}
    {events : List Event} :
    Throughout step admitted state (event :: events) ↔
      admitted state event ∧ Throughout step admitted (step state event) events := by
  constructor
  · intro h
    refine ⟨h [] event events rfl, ?_⟩
    intro earlier later rest hsplit
    have hcons : event :: events = (event :: earlier) ++ later :: rest := by
      rw [hsplit, List.cons_append]
    exact h (event :: earlier) later rest hcons
  · rintro ⟨hevent, hrest⟩ earlier later rest hsplit
    cases earlier with
    | nil =>
      obtain ⟨rfl, rfl⟩ := List.cons.inj hsplit
      exact hevent
    | cons first earlier =>
      obtain ⟨rfl, rfl⟩ := List.cons.inj hsplit
      exact hrest earlier later rest rfl

/-- What every step that is admitted where it happens keeps, every run of such steps keeps. -/
theorem run_induction_throughout {admitted : State → Event → Prop} {inv : State → Prop}
    (hstep : ∀ state event, admitted state event → inv state → inv (step state event))
    {state : State} (hstate : inv state) {events : List Event}
    (hevents : Throughout step admitted state events) : inv (run step state events) := by
  induction events generalizing state with
  | nil => exact hstate
  | cons event events ih =>
    obtain ⟨hevent, hrest⟩ := throughout_cons.mp hevents
    rw [run_cons]
    exact ih (hstep state event hevent hstate) hrest

variable {step} in
theorem throughout_append {admitted : State → Event → Prop} {state : State}
    {first second : List Event} (h : Throughout step admitted state (first ++ second)) :
    Throughout step admitted state first ∧
      Throughout step admitted (run step state first) second := by
  constructor
  · intro earlier event later hsplit
    exact h earlier event (later ++ second) (by simp [hsplit])
  · intro earlier event later hsplit
    have hevent := h (first ++ earlier) event later (by simp [hsplit])
    rw [run_append] at hevent
    exact hevent

/-- What an invariant makes true of the admitted steps is true throughout. -/
theorem throughout_of_invariant {admitted guarantee : State → Event → Prop} {inv : State → Prop}
    (hstep : ∀ state event, admitted state event → inv state → inv (step state event))
    (hguarantee : ∀ state event, admitted state event → inv state → guarantee state event)
    {state : State} (hstate : inv state) {events : List Event}
    (hevents : Throughout step admitted state events) :
    Throughout step guarantee state events := by
  intro earlier event later hsplit
  rw [hsplit] at hevents
  have hreached : inv (run step state earlier) :=
    run_induction_throughout step hstep hstate (throughout_append hevents).1
  exact hguarantee _ _ (hevents earlier event later rfl) hreached

/-- What every admitted step keeps, every interleaving of admitted steps keeps. -/
theorem run_induction {admitted : Event → Prop} {inv : State → Prop}
    (hstep : ∀ state event, admitted event → inv state → inv (step state event))
    {state : State} (hstate : inv state) {events : List Event}
    (hevents : ∀ event ∈ events, admitted event) : inv (run step state events) := by
  apply run_induction_throughout step hstep hstate
  intro earlier event later hsplit
  exact hevents event (by simp [hsplit])

/-- The unconditional form of `run_induction`. -/
theorem run_invariant {inv : State → Prop}
    (hstep : ∀ state event, inv state → inv (step state event))
    {state : State} (hstate : inv state) (events : List Event) : inv (run step state events) := by
  have hall : ∀ event ∈ events, (fun _ : Event ↦ True) event := fun _ _ ↦ trivial
  exact run_induction step (fun state event _ ↦ hstep state event) hstate hall

/-- The events of a run that are chosen in the states in which they happen. -/
def selected (chosen : State → Event → Bool) (state : State) : List Event → List Event
  | [] => []
  | event :: events =>
    if chosen state event then event :: selected chosen (step state event) events
    else selected chosen (step state event) events

theorem selected_concat (chosen : State → Event → Bool) (state : State) (events : List Event)
    (event : Event) :
    selected step chosen state (events ++ [event]) =
      selected step chosen state events ++
        if chosen (run step state events) event then [event] else [] := by
  induction events generalizing state with
  | nil => rfl
  | cons first events ih =>
    rw [List.cons_append, selected, selected, run_cons, ih]
    split
    · exact List.cons_append.symm
    · rfl

/-! ## Cells -/

section

variable {Value : Type*} (write : State → Event → Option Value)

/-- The last value that a run writes into a cell, if it writes any. -/
def lastWrite (state : State) : List Event → Option Value
  | [] => none
  | event :: events => (lastWrite (step state event) events).or (write state event)

/-- A cell that every step overwrites or leaves alone holds the value that was last written. -/
theorem read_run (read : State → Option Value)
    (hread : ∀ state event, read (step state event) = (write state event).or (read state))
    (state : State) (events : List Event) :
    read (run step state events) = (lastWrite step write state events).or (read state) := by
  induction events generalizing state with
  | nil => rfl
  | cons event events ih =>
    calc
      read (run step state (event :: events)) = read (run step (step state event) events) := rfl
      _ = (lastWrite step write (step state event) events).or (read (step state event)) :=
        ih (step state event)
      _ = (lastWrite step write state (event :: events)).or (read state) := by
        rw [hread, lastWrite, Option.or_assoc]

/-- A run in which no step writes the cell writes nothing to it. -/
theorem lastWrite_eq_none {state : State} {events : List Event}
    (h : Throughout step (fun reached event ↦ write reached event = none) state events) :
    lastWrite step write state events = none := by
  induction events generalizing state with
  | nil => rfl
  | cons event events ih =>
    obtain ⟨hevent, hrest⟩ := throughout_cons.mp h
    rw [lastWrite, ih hrest, hevent]
    rfl

end

/-! ## Observations of one party -/

variable (own : Event → Bool) (observe : State → Event → Observation)

/-- What a party sees in an interleaving: one observation for each step of its own. -/
def observations (state : State) : List Event → List Observation
  | [] => []
  | event :: events =>
    if own event then observe state event :: observations (step state event) events
    else observations (step state event) events

/-- Unwinding.  If two states related by `agree` show the party the same, a step of the party keeps
them related and a foreign step on one side alone keeps them related, then dropping every foreign
step leaves the party's observations as they are. -/
theorem observations_filter {agree : State → State → Prop}
    (hobserve : ∀ left right event, own event = true → agree left right →
      observe left event = observe right event)
    (hown : ∀ left right event, own event = true → agree left right →
      agree (step left event) (step right event))
    (hforeign : ∀ left right event, own event = false → agree left right →
      agree (step left event) right)
    {left right : State} (hagree : agree left right) (events : List Event) :
    observations step own observe left events =
      observations step own observe right (events.filter own) := by
  induction events generalizing left right with
  | nil => rfl
  | cons event events ih =>
    cases howner : own event with
    | true =>
      rw [List.filter_cons_of_pos howner]
      simp only [observations, howner, if_true]
      rw [hobserve left right event howner hagree,
        ih (hown left right event howner hagree)]
    | false =>
      rw [List.filter_cons_of_neg (by simp [howner])]
      simp only [observations, howner, Bool.false_eq_true, if_false]
      exact ih (hforeign left right event howner hagree)

end Interleaving

import Mathlib.Data.List.Basic

/-!
# Guarded machines

A machine's moves are partial: an event whose guard does not hold in a state is
no move there and leaves the state.  A run is a list of events, and every
interleaving of the machine's parties is such a list.

`run_invariant` is the induction over runs, under a condition that every event
of the run meets.  `turns_add_le` is the descent rule: when each counted move
lowers a measure and the other moves do not raise it, a run makes at most as
many counted moves as the measure says.
-/

namespace Mailcore
namespace Concurrent
namespace Guarded

variable {σ ε : Type}

/-- The state after one event. -/
def step (move : ε → σ → Option σ) (state : σ) (event : ε) : σ :=
  (move event state).getD state

/-- The state after a run. -/
def run (move : ε → σ → Option σ) (state : σ) (events : List ε) : σ :=
  events.foldl (step move) state

/-- Every event of the run meets the condition in the state it comes in. -/
def RunMeets (move : ε → σ → Option σ) (condition : ε → σ → Prop) :
    σ → List ε → Prop
  | _, [] => True
  | state, event :: events =>
      condition event state ∧
        RunMeets move condition (step move state event) events

/-- The moves of a run that are of the counted kind. -/
def turns (move : ε → σ → Option σ) (counted : ε → σ → Bool) :
    σ → List ε → Nat
  | _, [] => 0
  | state, event :: events =>
      (if counted event state && (move event state).isSome then 1 else 0) +
        turns move counted (step move state event) events

variable {move : ε → σ → Option σ} {condition : ε → σ → Prop}

instance decidableRunMeets
    [∀ event state, Decidable (condition event state)] :
    (state : σ) → (events : List ε) →
      Decidable (RunMeets move condition state events)
  | _, [] => isTrue trivial
  | state, event :: events =>
      haveI := decidableRunMeets (step move state event) events
      inferInstanceAs (Decidable (_ ∧ _))

@[simp] theorem run_nil (state : σ) : run move state [] = state := rfl

@[simp] theorem run_cons (state : σ) (event : ε) (events : List ε) :
    run move state (event :: events) =
      run move (step move state event) events := rfl

theorem run_append (state : σ) (before after : List ε) :
    run move state (before ++ after) = run move (run move state before) after :=
  List.foldl_append

theorem runMeets_append (state : σ) (before after : List ε) :
    RunMeets move condition state (before ++ after) ↔
      RunMeets move condition state before ∧
        RunMeets move condition (run move state before) after := by
  induction before generalizing state with
  | nil => simp [RunMeets]
  | cons event before earlier => simp [RunMeets, earlier, and_assoc]

/-- A run meets a condition when every event does, after the events before
it. -/
theorem runMeets_iff (state : σ) (events : List ε) :
    RunMeets move condition state events ↔
      ∀ before event rest, before ++ event :: rest = events →
        condition event (run move state before) := by
  constructor
  · intro meets before event rest split
    rw [← split, runMeets_append] at meets
    exact meets.2.1
  · intro each
    induction events generalizing state with
    | nil => exact trivial
    | cons event events later =>
        refine ⟨each [] event events rfl, later _ ?_⟩
        intro before next rest split
        exact each (event :: before) next rest (by rw [← split]; rfl)

theorem step_of_some {state next : σ} {event : ε}
    (moved : move event state = some next) : step move state event = next := by
  simp [step, moved]

theorem step_of_none {state : σ} {event : ε}
    (blocked : move event state = none) : step move state event = state := by
  simp [step, blocked]

/-- What holds at first and is kept by every move the condition allows holds
after every run that meets the condition. -/
theorem run_invariant (invariant : σ → Prop)
    (keeps : ∀ state event next, invariant state → condition event state →
      move event state = some next → invariant next)
    {state : σ} (initial : invariant state)
    (events : List ε) (meets : RunMeets move condition state events) :
    invariant (run move state events) := by
  induction events generalizing state with
  | nil => exact initial
  | cons event events later =>
      obtain ⟨allowed, meets⟩ := meets
      refine later ?_ meets
      cases moved : move event state with
      | none => rwa [step_of_none moved]
      | some next =>
          rw [step_of_some moved]
          exact keeps state event next initial allowed moved

/-- Where the condition is what keeps an invariant that grants a property, and
every event against the condition breaks the property, a run has the property
throughout exactly when it meets the condition. -/
theorem run_holds_iff (invariant property : σ → Prop)
    (keeps : ∀ state event next, invariant state → condition event state →
      move event state = some next → invariant next)
    (grants : ∀ state, invariant state → property state)
    (breaks : ∀ state event, invariant state → ¬condition event state →
      ¬property (step move state event))
    {state : σ} (initial : invariant state) (events : List ε) :
    (∀ before, before <+: events → property (run move state before)) ↔
      RunMeets move condition state events := by
  constructor
  · intro holds
    induction events generalizing state with
    | nil => exact trivial
    | cons event events later =>
        by_cases allowed : condition event state
        · refine ⟨allowed, later ?_ fun before first => ?_⟩
          · exact run_invariant invariant keeps initial [event] ⟨allowed, trivial⟩
          · exact holds (event :: before) (List.cons_prefix_cons.mpr ⟨rfl, first⟩)
        · refine absurd (holds [event] ?_) (breaks state event initial allowed)
          exact List.cons_prefix_cons.mpr ⟨rfl, List.nil_prefix⟩
  · rintro meets before ⟨rest, rfl⟩
    exact grants _ (run_invariant invariant keeps initial before
      ((runMeets_append state before rest).mp meets).1)

/-- A condition every event meets restricts no run. -/
theorem runMeets_of_forall
    (always : ∀ event state, condition event state)
    (state : σ) (events : List ε) : RunMeets move condition state events := by
  induction events generalizing state with
  | nil => exact trivial
  | cons event events later => exact ⟨always event state, later _⟩

/-- A run in which every counted move lowers the measure, as long as the
invariant holds, makes no more counted moves than the measure allows. -/
theorem turns_add_le (invariant : σ → Prop)
    (measure : σ → Nat) (counted : ε → σ → Bool)
    (keeps : ∀ state event next, invariant state → condition event state →
      move event state = some next → invariant next)
    (lowers : ∀ state event next, invariant state → condition event state →
      move event state = some next →
        measure next + (if counted event state then 1 else 0) ≤ measure state)
    {state : σ} (initial : invariant state)
    (events : List ε) (meets : RunMeets move condition state events) :
    turns move counted state events + measure (run move state events) ≤
      measure state := by
  induction events generalizing state with
  | nil => simp [turns]
  | cons event events later =>
      obtain ⟨allowed, meets⟩ := meets
      cases moved : move event state with
      | none =>
          rw [step_of_none moved] at meets
          have rest := later initial meets
          simpa [turns, moved, step_of_none moved] using rest
      | some next =>
          rw [step_of_some moved] at meets
          have kept := keeps state event next initial allowed moved
          have lower := lowers state event next initial allowed moved
          have rest := later kept meets
          simp only [turns, moved, run_cons, step_of_some moved,
            Option.isSome_some, Bool.and_true]
          omega

end Guarded
end Concurrent
end Mailcore

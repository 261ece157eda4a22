import Mailcore.Concurrent.Program

/-!
# Interleaved runs

A system answers the calls of many threads over one shared state.  What the
environment contributes to an answer is an explicit argument of every turn, so
a run is a list of events and every interleaving is such a list.

`run_invariant` is the induction over runs: an invariant of the shared state
and of what the monitors have seen holds throughout a run when every single
allowed call keeps it.  A condition may restrict the turns of the run; it sees
the state before the turn and the call, never the outcome.
-/

namespace Mailcore
namespace Concurrent

/-- A shared state with its atomic calls. -/
structure System (signature : Signature) (ι σ ω ε : Type) where
  /-- Answer the call of one thread, given the environment's contribution. -/
  respond : ι → (operation : signature.Call) → ω → σ →
    signature.Reply operation × σ
  /-- A change of the shared state that no thread makes. -/
  disturb : ε → σ → σ

/-- One event of a run. -/
inductive Event (ι ω ε : Type)
  | turn (who : ι) (answer : ω)
  | disturb (change : ε)

/-- The shared state, the rest of every thread's program, and what a monitor
has seen of every thread. -/
structure Config (signature : Signature) (monitor : Monitor signature)
    (ι σ : Type) where
  /-- The state the threads share. -/
  shared : σ
  /-- What each thread still has to run. -/
  thread : ι → Program signature Unit
  /-- The monitor state of each thread. -/
  seen : ι → monitor.State

/-- A restriction on turns: the shared state, the monitor states, the thread,
its call and the environment's contribution. -/
abbrev Condition (signature : Signature) (monitor : Monitor signature)
    (ι σ ω : Type) :=
  σ → (ι → monitor.State) → ι → signature.Call → ω → Prop

namespace Config

variable {signature : Signature} {monitor : Monitor signature}
  {ι σ ω ε : Type} [DecidableEq ι]

/-- The configuration after one event.  A turn of a finished thread changes
nothing. -/
def step (system : System signature ι σ ω ε)
    (config : Config signature monitor ι σ) :
    Event ι ω ε → Config signature monitor ι σ
  | .turn who answer =>
      match config.thread who with
      | .done _ => config
      | .call operation next =>
          let outcome := system.respond who operation answer config.shared
          { shared := outcome.2
            thread := Function.update config.thread who (next outcome.1)
            seen := Function.update config.seen who
              (monitor.next (config.seen who) operation outcome.1) }
  | .disturb change =>
      { config with shared := system.disturb change config.shared }

/-- The configuration after a run. -/
def run (system : System signature ι σ ω ε)
    (config : Config signature monitor ι σ)
    (events : List (Event ι ω ε)) : Config signature monitor ι σ :=
  events.foldl (step system) config

/-- The next event meets the condition. -/
def Meets (condition : Condition signature monitor ι σ ω)
    (config : Config signature monitor ι σ) : Event ι ω ε → Prop
  | .turn who answer =>
      match config.thread who with
      | .done _ => True
      | .call operation _ =>
          condition config.shared config.seen who operation answer
  | .disturb _ => True

/-- Every event of the run meets the condition in the state it happens in. -/
def RunMeets (system : System signature ι σ ω ε)
    (condition : Condition signature monitor ι σ ω) :
    Config signature monitor ι σ → List (Event ι ω ε) → Prop
  | _, [] => True
  | config, event :: events =>
      config.Meets condition event ∧
        RunMeets system condition (config.step system event) events

section Decidable

variable {condition : Condition signature monitor ι σ ω}
  [∀ shared seen who operation answer,
    Decidable (condition shared seen who operation answer)]

instance decidableMeets (config : Config signature monitor ι σ) :
    (event : Event ι ω ε) → Decidable (config.Meets condition event)
  | .disturb _ => isTrue trivial
  | .turn who answer =>
      match program : config.thread who with
      | .done _ => isTrue (by simp [Meets, program])
      | .call operation _ =>
          decidable_of_iff
            (condition config.shared config.seen who operation answer)
            (by simp [Meets, program])

instance decidableRunMeets
    (system : System signature ι σ ω ε) :
    (config : Config signature monitor ι σ) →
      (events : List (Event ι ω ε)) →
      Decidable (RunMeets system condition config events)
  | _, [] => isTrue trivial
  | config, event :: events =>
      haveI := decidableRunMeets system (config.step system event) events
      inferInstanceAs (Decidable (_ ∧ _))

end Decidable

/-- Every thread obeys its monitor from here on. -/
def Obedient (config : Config signature monitor ι σ) : Prop :=
  ∀ who, (config.thread who).Obeys monitor (config.seen who)
    fun _ _ => True

/-- A turn consumes one call of one thread, so obedience is kept. -/
theorem Obedient.step
    {system : System signature ι σ ω ε}
    {config : Config signature monitor ι σ}
    (obedient : config.Obedient)
    (event : Event ι ω ε) :
    (config.step system event).Obedient := by
  cases event with
  | disturb change => exact obedient
  | turn who answer =>
      have own := obedient who
      unfold Config.step
      cases program : config.thread who with
      | done value =>
          simp only [program]
          exact obedient
      | call operation next =>
          rw [program, Program.obeys_call] at own
          intro other
          by_cases same : other = who
          · subst same
            simpa only [program, Function.update_self] using own.2 _
          · simpa only [program, Function.update_of_ne same] using
              obedient other

/-- An invariant that every allowed turn under the condition keeps, and that
no disturbance breaks, holds after every run under the condition. -/
theorem run_invariant
    {system : System signature ι σ ω ε}
    {condition : Condition signature monitor ι σ ω}
    (invariant : σ → (ι → monitor.State) → Prop)
    (turn : ∀ shared seen who operation answer,
      invariant shared seen →
      monitor.allows (seen who) operation →
      condition shared seen who operation answer →
      invariant (system.respond who operation answer shared).2
        (Function.update seen who (monitor.next (seen who) operation
          (system.respond who operation answer shared).1)))
    (disturb : ∀ shared seen change,
      invariant shared seen → invariant (system.disturb change shared) seen)
    {config : Config signature monitor ι σ}
    (obedient : config.Obedient)
    (initial : invariant config.shared config.seen)
    (events : List (Event ι ω ε))
    (meets : RunMeets system condition config events) :
    invariant (config.run system events).shared
      (config.run system events).seen := by
  induction events generalizing config with
  | nil => exact initial
  | cons event events inductionHypothesis =>
      refine inductionHypothesis (obedient.step event) ?_ meets.2
      have first := meets.1
      cases event with
      | disturb change => exact disturb _ _ change initial
      | turn who answer =>
          have own := obedient who
          unfold Meets at first
          unfold Config.step
          cases program : config.thread who with
          | done value => simpa only [program] using initial
          | call operation next =>
              rw [program, Program.obeys_call] at own
              simp only [program] at first ⊢
              exact turn _ _ who operation answer initial own.1 first

/-- Obedience is kept throughout a run. -/
theorem Obedient.run
    {system : System signature ι σ ω ε}
    {config : Config signature monitor ι σ}
    (obedient : config.Obedient)
    (events : List (Event ι ω ε)) :
    (config.run system events).Obedient := by
  induction events generalizing config with
  | nil => exact obedient
  | cons event events inductionHypothesis =>
      exact inductionHypothesis (obedient.step event)

/-- A run is a first part and a run from where it leads. -/
theorem run_append
    (system : System signature ι σ ω ε)
    (config : Config signature monitor ι σ)
    (first second : List (Event ι ω ε)) :
    config.run system (first ++ second) =
      (config.run system first).run system second := by
  rw [run, List.foldl_append]
  rfl

theorem runMeets_append
    {system : System signature ι σ ω ε}
    {condition : Condition signature monitor ι σ ω}
    {config : Config signature monitor ι σ}
    {first second : List (Event ι ω ε)} :
    RunMeets system condition config (first ++ second) ↔
      RunMeets system condition config first ∧
        RunMeets system condition (config.run system first) second := by
  induction first generalizing config with
  | nil => exact (true_and _).symm ▸ Iff.rfl
  | cons event events inductionHypothesis =>
      rw [List.cons_append, RunMeets, RunMeets, inductionHypothesis, and_assoc]
      rfl

end Config

end Concurrent
end Mailcore

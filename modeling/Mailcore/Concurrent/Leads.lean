import Mailcore.Concurrent.Alone

/-!
# Where a program that runs alone leads

`Leads` says what a fallible program that runs alone comes to, whatever
answers of some kind it gets: the postcondition holds of its result and of the
state it leaves.  There is one rule for each way to build a program.
-/

namespace Mailcore
namespace Concurrent

namespace Program

variable {signature : Signature} {α σ ω : Type}

/-- A program uses the first answers of its stream and leaves the others. -/
theorem alone_left
    (respond : Responder signature σ ω) (program : Program signature α)
    (answers : Nat → ω) (state : σ) :
    ∃ used, (program.alone respond answers state).2.1 =
      fun index => answers (index + used) := by
  induction program generalizing answers state with
  | done value => exact ⟨0, rfl⟩
  | call operation next inductionHypothesis =>
      obtain ⟨used, left⟩ := inductionHypothesis
        (respond operation (answers 0) state).1 (Stream.rest answers)
        (respond operation (answers 0) state).2
      refine ⟨used + 1, ?_⟩
      change ((next _).alone respond (Stream.rest answers) _).2.1 = _
      rw [left]
      rfl

end Program

namespace Fallible

variable {Call : Type} {Value : Call → Type} {ε α β σ ω : Type}
  (respond : Responder (Signature.fallible Call Value ε) σ ω)
  (calm : ω → Prop)

/-- The program, alone and on answers of this kind, ends in a result and a
state that satisfy the postcondition. -/
def Leads (program : Fallible Call Value ε α) (state : σ)
    (post : Except ε α → σ → Prop) : Prop :=
  ∀ answers : Nat → ω, (∀ index, calm (answers index)) →
    post (alone respond program answers state).1
      (alone respond program answers state).2.2

variable {respond} {calm} {state : σ}

/-- A weaker postcondition is reached as well. -/
theorem Leads.mono
    {program : Fallible Call Value ε α}
    {strong weak : Except ε α → σ → Prop}
    (leads : Leads respond calm program state strong)
    (implies : ∀ result reached, strong result reached →
      weak result reached) :
    Leads respond calm program state weak :=
  fun answers kind => implies _ _ (leads answers kind)

/-- What is reached on all answers is reached on those of a stricter kind. -/
theorem Leads.strict
    {program : Fallible Call Value ε α} {post : Except ε α → σ → Prop}
    (leads : Leads respond calm program state post) {strict : ω → Prop}
    (implies : ∀ answer, strict answer → calm answer) :
    Leads respond strict program state post :=
  fun answers kind => leads answers fun index => implies _ (kind index)

/-- Two postconditions are reached together. -/
theorem Leads.and
    {program : Fallible Call Value ε α}
    {first second : Except ε α → σ → Prop}
    (leadsFirst : Leads respond calm program state first)
    (leadsSecond : Leads respond calm program state second) :
    Leads respond calm program state fun result reached =>
      first result reached ∧ second result reached :=
  fun answers kind => ⟨leadsFirst answers kind, leadsSecond answers kind⟩

theorem leads_pure
    {value : α} {post : Except ε α → σ → Prop}
    (holds : post (.ok value) state) :
    Leads respond calm (pure value) state post :=
  fun _ _ => holds

theorem leads_throw
    {error : ε} {post : Except ε α → σ → Prop}
    (holds : post (.error error) state) :
    Leads respond calm (throw error) state post :=
  fun _ _ => holds

theorem leads_perform
    {call : Call} {post : Except ε (Value call) → σ → Prop}
    (holds : ∀ answer, calm answer →
      post (respond call answer state).1 (respond call answer state).2) :
    Leads respond calm (perform call) state post :=
  fun answers kind => holds (answers 0) (kind 0)

/-- The second part is reached with the answers the first has left. -/
theorem Leads.bind
    {program : Fallible Call Value ε α}
    {continuation : α → Fallible Call Value ε β}
    {middle : Except ε α → σ → Prop} {post : Except ε β → σ → Prop}
    (first : Leads respond calm program state middle)
    (rest : ∀ value reached, middle (.ok value) reached →
      Leads respond calm (continuation value) reached post)
    (fails : ∀ error reached, middle (.error error) reached →
      post (.error error) reached) :
    Leads respond calm (program >>= continuation) state post := by
  intro answers kind
  have reached := first answers kind
  obtain ⟨used, left⟩ := program.run.alone_left respond answers state
  rw [alone_bind]
  unfold alone at reached ⊢
  generalize program.run.alone respond answers state = outcome
    at reached left
  obtain ⟨error | value, others, later⟩ := outcome
  · exact fails error later reached
  · refine rest value later reached others ?_
    intro index
    change others = _ at left
    rw [left]
    exact kind _

theorem Leads.attempt
    {program : Fallible Call Value ε α}
    {post : Except ε (Except ε α) → σ → Prop}
    (leads : Leads respond calm program state fun result reached =>
      post (.ok result) reached) :
    Leads respond calm (Fallible.attempt program) state post := by
  intro answers kind
  rw [alone_attempt]
  exact leads answers kind

theorem Leads.ignore
    {program : Fallible Call Value ε α} {post : Except ε Unit → σ → Prop}
    (leads : Leads respond calm program state fun _ reached =>
      post (.ok ()) reached) :
    Leads respond calm (Fallible.ignore program) state post := by
  intro answers kind
  rw [alone_ignore]
  exact leads answers kind

/-! ## Sequences by their first part -/

variable (respond) (calm) in
/-- What the first part has to come to for the whole to satisfy the
postcondition. -/
@[reducible] def Then (continuation : α → Fallible Call Value ε β)
    (post : Except ε β → σ → Prop) : Except ε α → σ → Prop
  | .ok value, reached =>
      Leads respond calm (continuation value) reached post
  | .error error, reached => post (.error error) reached

theorem Leads.seq
    {program : Fallible Call Value ε α}
    {continuation : α → Fallible Call Value ε β}
    {post : Except ε β → σ → Prop}
    (first : Leads respond calm program state
      (Then respond calm continuation post)) :
    Leads respond calm (program >>= continuation) state post :=
  first.bind (fun _ _ leads => leads) fun _ _ holds => holds

theorem leads_perform_bind
    {call : Call} {continuation : Value call → Fallible Call Value ε β}
    {post : Except ε β → σ → Prop}
    (holds : ∀ answer, calm answer →
      Then respond calm continuation post (respond call answer state).1
        (respond call answer state).2) :
    Leads respond calm (perform call >>= continuation) state post :=
  Leads.seq (leads_perform holds)

theorem leads_attempt_bind
    {program : Fallible Call Value ε α}
    {continuation : Except ε α → Fallible Call Value ε β}
    {post : Except ε β → σ → Prop}
    (leads : Leads respond calm program state fun result reached =>
      Leads respond calm (continuation result) reached post) :
    Leads respond calm (Fallible.attempt program >>= continuation) state
      post := by
  apply Leads.seq
  apply Leads.attempt
  exact leads

theorem leads_ignore_bind
    {program : Fallible Call Value ε α}
    {continuation : Unit → Fallible Call Value ε β}
    {post : Except ε β → σ → Prop}
    (leads : Leads respond calm program state fun _ reached =>
      Leads respond calm (continuation ()) reached post) :
    Leads respond calm (Fallible.ignore program >>= continuation) state
      post := by
  apply Leads.seq
  apply Leads.ignore
  exact leads

/-! ## Keeping the calls -/

variable (respond) in
/-- Answer calls and keep those that succeeded, the latest first. -/
def recording : Responder (Signature.fallible Call Value ε)
    (σ × List Call) ω :=
  fun call answer state =>
    let outcome := respond call answer state.1
    (outcome.1, outcome.2,
      if outcome.1.isOk then call :: state.2 else state.2)

/-- Keeping the calls changes nothing else. -/
theorem alone_recording
    (program : Fallible Call Value ε α) (answers : Nat → ω) (state : σ)
    (log : List Call) :
    (alone (recording respond) program answers (state, log)).1 =
        (alone respond program answers state).1 ∧
      (alone (recording respond) program answers (state, log)).2.2.1 =
        (alone respond program answers state).2.2 := by
  unfold alone
  generalize program.run = run
  induction run generalizing answers state log with
  | done value => exact ⟨rfl, rfl⟩
  | call call next inductionHypothesis =>
      exact inductionHypothesis _ _ _ _

end Fallible

end Concurrent
end Mailcore

import Mailcore.Concurrent.Fallible

/-!
# Programs that run alone

A program that runs without interference performs its calls one after the
other on the shared state.  The environment contributes one answer to each
call, taken from a stream; what it does not use is left for what runs next.
-/

namespace Mailcore
namespace Concurrent

/-- A stream of answers without the first one. -/
def Stream.rest {ω : Type} (answers : Nat → ω) : Nat → ω :=
  fun index => answers (index + 1)

@[simp] theorem Stream.rest_apply {ω : Type} (answers : Nat → ω)
    (index : Nat) : Stream.rest answers index = answers (index + 1) := rfl

/-- Answers the calls of a program on a state. -/
abbrev Responder (signature : Signature) (σ ω : Type) :=
  (operation : signature.Call) → ω → σ → signature.Reply operation × σ

namespace Program

variable {signature : Signature} {α β σ ω : Type}

/-- The result of a program that runs alone, the answers it did not use and
the state it leaves. -/
def alone (respond : Responder signature σ ω) :
    Program signature α → (Nat → ω) → σ → α × (Nat → ω) × σ
  | .done value, answers, state => (value, answers, state)
  | .call operation next, answers, state =>
      let outcome := respond operation (answers 0) state
      (next outcome.1).alone respond (Stream.rest answers) outcome.2

theorem alone_bind
    (respond : Responder signature σ ω) (program : Program signature α)
    (continuation : α → Program signature β) (answers : Nat → ω)
    (state : σ) :
    (program >>= continuation).alone respond answers state =
      let first := program.alone respond answers state
      (continuation first.1).alone respond first.2.1 first.2.2 := by
  induction program generalizing answers state with
  | done value => rfl
  | call operation next inductionHypothesis =>
      exact inductionHypothesis _ _ _

end Program

namespace Fallible

variable {Call : Type} {Value : Call → Type} {ε α β σ ω : Type}
  (respond : Responder (Signature.fallible Call Value ε) σ ω)

/-- A fallible program that runs alone. -/
def alone (program : Fallible Call Value ε α) (answers : Nat → ω)
    (state : σ) : Except ε α × (Nat → ω) × σ :=
  program.run.alone respond answers state

@[simp] theorem alone_pure
    (value : α) (answers : Nat → ω) (state : σ) :
    alone respond (pure value) answers state = (.ok value, answers, state) :=
  rfl

@[simp] theorem alone_throw
    (error : ε) (answers : Nat → ω) (state : σ) :
    alone respond (throw error : Fallible Call Value ε α) answers state =
      (.error error, answers, state) := rfl

@[simp] theorem alone_perform
    (call : Call) (answers : Nat → ω) (state : σ) :
    alone respond (perform call) answers state =
      ((respond call (answers 0) state).1, Stream.rest answers,
        (respond call (answers 0) state).2) := rfl

/-- A failing first part ends the sequence with its error. -/
theorem alone_bind
    (program : Fallible Call Value ε α)
    (continuation : α → Fallible Call Value ε β)
    (answers : Nat → ω) (state : σ) :
    alone respond (program >>= continuation) answers state =
      match alone respond program answers state with
      | (.ok value, left, reached) =>
          alone respond (continuation value) left reached
      | (.error error, left, reached) => (.error error, left, reached) := by
  change (program.run >>= ExceptT.bindCont continuation).alone respond
    answers state = _
  rw [Program.alone_bind]
  unfold alone
  generalize program.run.alone respond answers state = first
  obtain ⟨error | value, left, reached⟩ := first
  all_goals rfl

/-- A sequence that ends by throwing fails and leaves what its first part
left. -/
theorem alone_bind_throw
    (program : Fallible Call Value ε α) (error : ε)
    (answers : Nat → ω) (state : σ) :
    (alone respond (program >>= fun _ => (throw error :
        Fallible Call Value ε β)) answers state).1.isOk = false ∧
      (alone respond (program >>= fun _ => (throw error :
        Fallible Call Value ε β)) answers state).2 =
        (alone respond program answers state).2 := by
  rw [alone_bind]
  generalize alone respond program answers state = first
  obtain ⟨failure | value, left, reached⟩ := first
  all_goals exact ⟨rfl, rfl⟩

@[simp] theorem alone_attempt
    (program : Fallible Call Value ε α) (answers : Nat → ω) (state : σ) :
    alone respond (attempt program) answers state =
      (.ok (alone respond program answers state).1,
        (alone respond program answers state).2) := by
  change (program.run >>= fun value => Program.done
    (Except.ok value : Except ε (Except ε α))).alone respond answers state = _
  rw [Program.alone_bind]
  rfl

@[simp] theorem alone_ignore
    (program : Fallible Call Value ε α) (answers : Nat → ω) (state : σ) :
    alone respond (ignore program) answers state =
      (.ok (), (alone respond program answers state).2) := by
  unfold ignore
  rw [alone_bind, alone_attempt]
  rfl

end Fallible

end Concurrent
end Mailcore

/-!
## Programs a monitor learns nothing from

Most calls of a long program are of no interest to a given monitor: they are
allowed and leave its state.  `Idles` says that all calls of a program are of
this kind, with one rule for each way to build a program.
-/

namespace Mailcore
namespace Concurrent
namespace Fallible

variable {Call : Type} {Value : Call → Type} {ε α β : Type}
  {monitor : Monitor (Signature.fallible Call Value ε)}
  {state : monitor.State}

/-- The program makes only allowed calls and leaves the monitor's state. -/
def Idles (monitor : Monitor (Signature.fallible Call Value ε))
    (state : monitor.State) (program : Fallible Call Value ε α) : Prop :=
  Keeps monitor program state fun _ after => after = state

namespace Idles

theorem pure (value : α) :
    Idles monitor state (Pure.pure value : Fallible Call Value ε α) := rfl

theorem throw (error : ε) :
    Idles monitor state
      (MonadExcept.throw error : Fallible Call Value ε α) := rfl

theorem perform {call : Call} (allowed : monitor.allows state call)
    (same : ∀ reply, monitor.next state call reply = state) :
    Idles monitor state
      (Fallible.perform call : Fallible Call Value ε (Value call)) :=
  ⟨allowed, same⟩

/-- What follows an idle program starts from the same state. -/
theorem followed
    {program : Fallible Call Value ε α} (idles : Idles monitor state program)
    {continuation : α → Fallible Call Value ε β}
    {post : Except ε β → monitor.State → Prop}
    (rest : ∀ value, Keeps monitor (continuation value) state post)
    (fails : ∀ error, post (.error error) state) :
    Keeps monitor (program >>= continuation) state post := by
  refine Keeps.bind idles ?_ ?_
  · rintro value _ rfl
    exact rest value
  · rintro error _ rfl
    exact fails error

theorem bind
    {program : Fallible Call Value ε α} (idles : Idles monitor state program)
    {continuation : α → Fallible Call Value ε β}
    (rest : ∀ value, Idles monitor state (continuation value)) :
    Idles monitor state (program >>= continuation) :=
  idles.followed rest fun _ => rfl

theorem attempt
    {program : Fallible Call Value ε α}
    (idles : Idles monitor state program) :
    Idles monitor state (Fallible.attempt program) := by
  unfold Idles
  rw [keeps_attempt]
  exact idles

theorem ignore
    {program : Fallible Call Value ε α}
    (idles : Idles monitor state program) :
    Idles monitor state (Fallible.ignore program) := by
  unfold Idles
  rw [keeps_ignore]
  exact idles

end Idles

end Fallible
end Concurrent
end Mailcore

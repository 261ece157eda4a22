import Mathlib.Logic.Function.Basic

/-!
# Programs over atomic calls

A sequential program is a tree: it either is done, or performs one atomic call
and continues according to the reply.  Everything between two calls is pure,
so interleaving the calls of several programs is interleaving the programs.

A monitor watches the calls and replies of one program.  Its state records
what the program may rely on, and `Program.Obeys` is the weakest precondition
of a program with respect to it: every call is one the monitor allows in the
state it has reached, whatever the replies were.
-/

namespace Mailcore
namespace Concurrent

/-- Names of the atomic calls and the type each of them replies with. -/
structure Signature where
  /-- The atomic calls, with their arguments. -/
  Call : Type
  /-- The reply to one call. -/
  Reply : Call → Type

/-- A sequential program whose only effects are the calls of a signature. -/
inductive Program (signature : Signature) (α : Type) : Type
  | done (value : α)
  | call (operation : signature.Call)
      (next : signature.Reply operation → Program signature α)

/-- Watches the calls and replies of one program. -/
structure Monitor (signature : Signature) where
  /-- What the monitor remembers. -/
  State : Type
  /-- The calls a program may perform in a state. -/
  allows : State → signature.Call → Prop
  /-- The state after a call and its reply. -/
  next : State → (operation : signature.Call) →
    signature.Reply operation → State

namespace Program

variable {signature : Signature} {α β : Type}

/-- Run one program and continue with its result. -/
def bind (program : Program signature α)
    (continuation : α → Program signature β) : Program signature β :=
  match program with
  | .done value => continuation value
  | .call operation next =>
      .call operation fun reply => (next reply).bind continuation

instance : Monad (Program signature) where
  pure := .done
  bind := bind

/-- The program that performs one call and returns its reply. -/
def perform (operation : signature.Call) :
    Program signature (signature.Reply operation) :=
  .call operation .done

@[simp] theorem pure_eq_done (value : α) :
    (pure value : Program signature α) = .done value := rfl

@[simp] theorem done_bind
    (value : α) (continuation : α → Program signature β) :
    (Program.done value >>= continuation) = continuation value := rfl

@[simp] theorem call_bind
    (operation : signature.Call)
    (next : signature.Reply operation → Program signature α)
    (continuation : α → Program signature β) :
    (Program.call operation next >>= continuation) =
      .call operation fun reply => next reply >>= continuation := rfl

/-- The program has made its last call. -/
def isDone : Program signature α → Bool
  | .done _ => true
  | .call _ _ => false

/-- Every call of the program is allowed when the monitor reaches it, and the
result and final monitor state satisfy the postcondition. -/
def Obeys (monitor : Monitor signature) :
    Program signature α → monitor.State →
      (α → monitor.State → Prop) → Prop
  | .done value, state, post => post value state
  | .call operation next, state, post =>
      monitor.allows state operation ∧
        ∀ reply, (next reply).Obeys monitor
          (monitor.next state operation reply) post

variable {monitor : Monitor signature} {state : monitor.State}

@[simp] theorem obeys_done
    (value : α) (post : α → monitor.State → Prop) :
    (Program.done value).Obeys monitor state post ↔ post value state :=
  Iff.rfl

@[simp] theorem obeys_call
    (operation : signature.Call)
    (next : signature.Reply operation → Program signature α)
    (post : α → monitor.State → Prop) :
    (Program.call operation next).Obeys monitor state post ↔
      monitor.allows state operation ∧
        ∀ reply, (next reply).Obeys monitor
          (monitor.next state operation reply) post :=
  Iff.rfl

@[simp] theorem obeys_perform
    (operation : signature.Call)
    (post : signature.Reply operation → monitor.State → Prop) :
    (perform operation).Obeys monitor state post ↔
      monitor.allows state operation ∧
        ∀ reply, post reply (monitor.next state operation reply) :=
  Iff.rfl

/-- The precondition of a sequence is the precondition of its first part for
the precondition of its second part. -/
theorem obeys_bind
    (program : Program signature α)
    (continuation : α → Program signature β)
    (post : β → monitor.State → Prop) :
    (program >>= continuation).Obeys monitor state post ↔
      program.Obeys monitor state fun value reached =>
        (continuation value).Obeys monitor reached post := by
  induction program generalizing state with
  | done value => rfl
  | call operation next inductionHypothesis =>
      simp only [call_bind, obeys_call, inductionHypothesis]

/-- A weaker postcondition is obeyed as well. -/
theorem Obeys.mono
    {program : Program signature α}
    {strong weak : α → monitor.State → Prop}
    (obeys : program.Obeys monitor state strong)
    (implies : ∀ value reached, strong value reached → weak value reached) :
    program.Obeys monitor state weak := by
  induction program generalizing state with
  | done value => exact implies value state obeys
  | call operation next inductionHypothesis =>
      exact ⟨obeys.1, fun reply => inductionHypothesis reply (obeys.2 reply)⟩

end Program

end Concurrent
end Mailcore

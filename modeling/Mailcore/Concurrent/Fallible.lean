import Mailcore.Concurrent.Program

/-!
# Programs whose calls can fail

A fallible program ends at the first failing call unless it handles the
failure.  `Keeps` is `Program.Obeys` for such programs, with one rule for each
way to build one.
-/

namespace Mailcore
namespace Concurrent

/-- A signature in which every call can fail. -/
@[reducible] def Signature.fallible
    (Call : Type) (Value : Call → Type) (ε : Type) : Signature where
  Call := Call
  Reply call := Except ε (Value call)

/-- A program over calls that can fail. -/
abbrev Fallible (Call : Type) (Value : Call → Type) (ε α : Type) : Type :=
  ExceptT ε (Program (Signature.fallible Call Value ε)) α

namespace Fallible

variable {Call : Type} {Value : Call → Type} {ε α β : Type}

/-- Perform one call and fail when it does. -/
def perform (call : Call) : Fallible Call Value ε (Value call) :=
  ExceptT.mk (@Program.perform (Signature.fallible Call Value ε) call)

/-- Run a program and hand its failure to the caller as a value. -/
def attempt (program : Fallible Call Value ε α) :
    Fallible Call Value ε (Except ε α) :=
  ExceptT.lift program.run

/-- Run a program for its effect, whether it fails or not. -/
def ignore (program : Fallible Call Value ε α) :
    Fallible Call Value ε Unit := do
  let _ ← attempt program
  pure ()

/-- A program as a whole process, whose result nobody reads. -/
def runOnly (program : Fallible Call Value ε α) :
    Program (Signature.fallible Call Value ε) Unit := do
  let _ ← program.run
  pure ()

variable (monitor : Monitor (Signature.fallible Call Value ε))

/-- The program makes only the calls the monitor allows, and ends with a
result and a monitor state that satisfy the postcondition. -/
def Keeps (program : Fallible Call Value ε α) (state : monitor.State)
    (post : Except ε α → monitor.State → Prop) : Prop :=
  program.run.Obeys monitor state post

variable {monitor} {state : monitor.State}

@[simp] theorem keeps_pure
    (value : α) (post : Except ε α → monitor.State → Prop) :
    Keeps monitor (pure value) state post ↔ post (.ok value) state :=
  Iff.rfl

@[simp] theorem keeps_throw
    (error : ε) (post : Except ε α → monitor.State → Prop) :
    Keeps monitor (throw error) state post ↔ post (.error error) state :=
  Iff.rfl

@[simp] theorem keeps_perform
    (call : Call)
    (post : Except ε (Value call) → monitor.State → Prop) :
    Keeps monitor (perform call) state post ↔
      monitor.allows state call ∧
        ∀ reply, post reply (monitor.next state call reply) :=
  Iff.rfl

/-- A weaker postcondition is kept as well. -/
theorem Keeps.mono
    {program : Fallible Call Value ε α}
    {strong weak : Except ε α → monitor.State → Prop}
    (keeps : Keeps monitor program state strong)
    (implies : ∀ result reached, strong result reached →
      weak result reached) :
    Keeps monitor program state weak :=
  Program.Obeys.mono keeps implies

/-- A failing first part ends the sequence with its error. -/
theorem keeps_bind
    (program : Fallible Call Value ε α)
    (continuation : α → Fallible Call Value ε β)
    (post : Except ε β → monitor.State → Prop) :
    Keeps monitor (program >>= continuation) state post ↔
      Keeps monitor program state fun result reached =>
        match result with
        | .ok value => Keeps monitor (continuation value) reached post
        | .error error => post (.error error) reached := by
  change (program.run >>= ExceptT.bindCont continuation).Obeys
    monitor state post ↔ _
  rw [Program.obeys_bind]
  constructor
  all_goals
    intro obeys
    refine Program.Obeys.mono obeys ?_
    intro result reached holds
    cases result <;> exact holds

/-- A sequence keeps to its monitor when the first part does, and the second
part does from wherever the first succeeds. -/
theorem Keeps.bind
    {program : Fallible Call Value ε α}
    {continuation : α → Fallible Call Value ε β}
    {middle : Except ε α → monitor.State → Prop}
    {post : Except ε β → monitor.State → Prop}
    (first : Keeps monitor program state middle)
    (rest : ∀ value reached, middle (.ok value) reached →
      Keeps monitor (continuation value) reached post)
    (fails : ∀ error reached, middle (.error error) reached →
      post (.error error) reached) :
    Keeps monitor (program >>= continuation) state post := by
  rw [keeps_bind]
  refine first.mono ?_
  intro result reached holds
  cases result with
  | ok value => exact rest value reached holds
  | error error => exact fails error reached holds

@[simp] theorem keeps_attempt
    (program : Fallible Call Value ε α)
    (post : Except ε (Except ε α) → monitor.State → Prop) :
    Keeps monitor (attempt program) state post ↔
      Keeps monitor program state fun result reached =>
        post (.ok result) reached := by
  change (program.run >>= fun value => .done (.ok value)).Obeys
    monitor state post ↔ _
  rw [Program.obeys_bind]
  rfl

@[simp] theorem keeps_ignore
    (program : Fallible Call Value ε α)
    (post : Except ε Unit → monitor.State → Prop) :
    Keeps monitor (ignore program) state post ↔
      Keeps monitor program state fun _ reached =>
        post (.ok ()) reached := by
  unfold ignore
  rw [keeps_bind, keeps_attempt]
  rfl

/-! ## Sequences that start with a call -/

@[simp] theorem keeps_perform_bind
    (call : Call)
    (continuation : Value call → Fallible Call Value ε β)
    (post : Except ε β → monitor.State → Prop) :
    Keeps monitor (perform call >>= continuation) state post ↔
      monitor.allows state call ∧
        (∀ value, Keeps monitor (continuation value)
          (monitor.next state call (.ok value)) post) ∧
        ∀ error, post (.error error)
          (monitor.next state call (.error error)) := by
  rw [keeps_bind, keeps_perform]
  refine and_congr_right fun _ => ?_
  constructor
  · intro replies
    exact ⟨fun value => replies (.ok value), fun error =>
      replies (.error error)⟩
  · rintro ⟨succeeds, fails⟩ (error | value)
    · exact fails error
    · exact succeeds value

@[simp] theorem keeps_attempt_bind
    (program : Fallible Call Value ε α)
    (continuation : Except ε α → Fallible Call Value ε β)
    (post : Except ε β → monitor.State → Prop) :
    Keeps monitor (attempt program >>= continuation) state post ↔
      Keeps monitor program state fun result reached =>
        Keeps monitor (continuation result) reached post := by
  rw [keeps_bind, keeps_attempt]

@[simp] theorem keeps_ignore_bind
    (program : Fallible Call Value ε α)
    (continuation : Unit → Fallible Call Value ε β)
    (post : Except ε β → monitor.State → Prop) :
    Keeps monitor (ignore program >>= continuation) state post ↔
      Keeps monitor program state fun _ reached =>
        Keeps monitor (continuation ()) reached post := by
  rw [keeps_bind, keeps_ignore]

/-- A process obeys its monitor when its program keeps to it. -/
theorem obeys_runOnly
    {program : Fallible Call Value ε α}
    {post : Except ε α → monitor.State → Prop}
    (keeps : Keeps monitor program state post) :
    (runOnly program).Obeys monitor state fun _ _ => True := by
  unfold runOnly
  rw [Program.obeys_bind]
  exact Program.Obeys.mono keeps fun _ _ _ => trivial

end Fallible

end Concurrent
end Mailcore

import Mathlib.Data.Set.Image
import Mailcore.Concurrent.Leads

/-!
# What a program that runs alone must and may come to

`Yields` is about success: whatever answers of some kind the program gets, a
value it ends in satisfies the postcondition, and where success is sure it does
end in one.  `Reaches` is the other side: some answers of that kind bring the
program to an outcome with the postcondition.
-/

namespace Mailcore
namespace Concurrent

namespace Program

variable {signature : Signature} {α σ ω : Type}

/-- The answers a program uses can be followed by any others. -/
theorem alone_splice
    (respond : Responder signature σ ω) (program : Program signature α)
    (answers others : Nat → ω) (state : σ) :
    ∃ spliced : Nat → ω,
      (∀ index, spliced index ∈ Set.range answers ∪ Set.range others) ∧
      program.alone respond spliced state =
        ((program.alone respond answers state).1, others,
          (program.alone respond answers state).2.2) := by
  induction program generalizing answers state with
  | done value =>
      exact ⟨others, fun index => .inr ⟨index, rfl⟩, rfl⟩
  | call operation next inductionHypothesis =>
      let outcome := respond operation (answers 0) state
      obtain ⟨later, among, same⟩ := inductionHypothesis outcome.1
        (Stream.rest answers) outcome.2
      refine ⟨fun | 0 => answers 0 | index + 1 => later index, ?_, same⟩
      rintro (_ | index)
      · exact .inl ⟨0, rfl⟩
      · refine (among index).imp ?_ id
        rintro ⟨place, here⟩
        exact ⟨place + 1, here⟩

end Program

namespace Fallible

variable {Call : Type} {Value : Call → Type} {ε α β σ ω : Type}
  (respond : Responder (Signature.fallible Call Value ε) σ ω)
  (calm : ω → Prop)

/-- Every value the program, alone and on answers of this kind, ends in
satisfies the postcondition together with the state it leaves; and if success
is `sure`, it ends in a value. -/
def Yields (sure : Prop) (program : Fallible Call Value ε α) (state : σ)
    (post : α → σ → Prop) : Prop :=
  Leads respond calm program state fun result reached =>
    (∀ value, result = .ok value → post value reached) ∧
      (sure → result.isOk)

/-- Some answers of this kind bring the program, alone, to an outcome that
satisfies the postcondition. -/
def Reaches (program : Fallible Call Value ε α) (state : σ)
    (post : Except ε α → σ → Prop) : Prop :=
  ∃ answers : Nat → ω, (∀ index, calm (answers index)) ∧
    post (alone respond program answers state).1
      (alone respond program answers state).2.2

variable {respond} {calm} {state : σ} {sure : Prop}

/-! ## Every success -/

theorem Yields.mono
    {program : Fallible Call Value ε α}
    {strong weak : α → σ → Prop}
    (yields : Yields respond calm sure program state strong)
    (implies : ∀ value reached, strong value reached → weak value reached) :
    Yields respond calm sure program state weak :=
  Leads.mono yields fun _ reached holds =>
    ⟨fun value same => implies value reached (holds.1 value same), holds.2⟩

/-- A postcondition of every outcome is one of every success. -/
theorem Leads.yields
    {program : Fallible Call Value ε α}
    {post : Except ε α → σ → Prop}
    (leads : Leads respond calm program state post)
    (succeeds : ∀ result reached, post result reached → sure → result.isOk) :
    Yields respond calm sure program state
      fun value => post (.ok value) := by
  refine leads.mono fun result reached holds =>
    ⟨?_, succeeds result reached holds⟩
  rintro value rfl
  exact holds

theorem yields_pure
    {value : α} {post : α → σ → Prop}
    (holds : post value state) :
    Yields respond calm sure (pure value) state post :=
  leads_pure ⟨fun _ same => Except.ok.inj same ▸ holds, fun _ => rfl⟩

theorem yields_throw
    {error : ε} {post : α → σ → Prop} (unsure : ¬sure) :
    Yields respond calm sure (throw error) state post :=
  leads_throw ⟨nofun, fun certain => absurd certain unsure⟩

theorem yields_perform
    {call : Call} {post : Value call → σ → Prop}
    (holds : ∀ answer, calm answer → ∀ value,
      (respond call answer state).1 = .ok value →
        post value (respond call answer state).2)
    (succeeds : sure → ∀ answer, calm answer →
      (respond call answer state).1.isOk) :
    Yields respond calm sure (perform call) state post :=
  leads_perform fun answer kind =>
    ⟨holds answer kind, fun certain => succeeds certain answer kind⟩

/-- Only the successes of the first part have a second part. -/
theorem Yields.bind
    {program : Fallible Call Value ε α}
    {continuation : α → Fallible Call Value ε β}
    {middle : α → σ → Prop} {post : β → σ → Prop}
    (first : Yields respond calm sure program state middle)
    (rest : ∀ value reached, middle value reached →
      Yields respond calm sure (continuation value) reached post) :
    Yields respond calm sure (program >>= continuation) state post :=
  Leads.bind first (fun value reached holds =>
    rest value reached (holds.1 value rfl)) fun _ _ holds =>
      ⟨nofun, holds.2⟩

/-- After an attempt both outcomes go on. -/
theorem yields_attempt_bind
    {program : Fallible Call Value ε α}
    {continuation : Except ε α → Fallible Call Value ε β}
    {post : β → σ → Prop}
    (leads : Leads respond calm program state fun result reached =>
      Yields respond calm sure (continuation result) reached post) :
    Yields respond calm sure (Fallible.attempt program >>= continuation) state
      post :=
  leads_attempt_bind leads

theorem yields_ignore_bind
    {program : Fallible Call Value ε α}
    {continuation : Unit → Fallible Call Value ε β}
    {post : β → σ → Prop}
    (leads : Leads respond calm program state fun _ reached =>
      Yields respond calm sure (continuation ()) reached post) :
    Yields respond calm sure (Fallible.ignore program >>= continuation) state
      post :=
  leads_ignore_bind leads

/-! ## Some outcome -/

theorem Reaches.mono
    {program : Fallible Call Value ε α}
    {strong weak : Except ε α → σ → Prop}
    (reaches : Reaches respond calm program state strong)
    (implies : ∀ result reached, strong result reached →
      weak result reached) :
    Reaches respond calm program state weak := by
  obtain ⟨answers, kind, holds⟩ := reaches
  exact ⟨answers, kind, implies _ _ holds⟩

/-- What all answers of a stricter kind lead to is reached. -/
theorem Leads.reaches
    {program : Fallible Call Value ε α} {post : Except ε α → σ → Prop}
    {strict : ω → Prop}
    (leads : Leads respond strict program state post)
    {answer : ω} (kind : strict answer)
    (implies : ∀ answer, strict answer → calm answer) :
    Reaches respond calm program state post :=
  ⟨fun _ => answer, fun _ => implies answer kind,
    leads _ fun _ => kind⟩

theorem reaches_pure
    {value : α} {post : Except ε α → σ → Prop}
    (answer : ω) (kind : calm answer)
    (holds : post (.ok value) state) :
    Reaches respond calm (pure value) state post :=
  ⟨fun _ => answer, fun _ => kind, holds⟩

theorem reaches_perform
    {call : Call} {post : Except ε (Value call) → σ → Prop}
    (answer : ω) (kind : calm answer)
    (holds : post (respond call answer state).1 (respond call answer state).2) :
    Reaches respond calm (perform call) state post :=
  ⟨fun _ => answer, fun _ => kind, holds⟩

/-- The second part is reached with answers of its own. -/
theorem Reaches.bind
    {program : Fallible Call Value ε α}
    {continuation : α → Fallible Call Value ε β}
    {middle : Except ε α → σ → Prop} {post : Except ε β → σ → Prop}
    (first : Reaches respond calm program state middle)
    (rest : ∀ value reached, middle (.ok value) reached →
      Reaches respond calm (continuation value) reached post)
    (fails : ∀ error reached, middle (.error error) reached →
      post (.error error) reached) :
    Reaches respond calm (program >>= continuation) state post := by
  obtain ⟨answers, kind, reached⟩ := first
  have splice := program.run.alone_splice respond answers
  cases outcome : program.run.alone respond answers state with
  | mk result left =>
    unfold alone at reached
    rw [outcome] at reached
    cases result with
    | error error =>
        refine ⟨answers, kind, ?_⟩
        rw [alone_bind, alone, outcome]
        exact fails error left.2 reached
    | ok value =>
        obtain ⟨others, otherKind, holds⟩ := rest value left.2 reached
        obtain ⟨spliced, among, same⟩ := splice others state
        refine ⟨spliced, fun index => ?_, ?_⟩
        · rcases among index with ⟨place, here⟩ | ⟨place, here⟩
          · exact here ▸ kind place
          · exact here ▸ otherKind place
        · rw [outcome] at same
          rw [alone_bind, alone, same]
          exact holds

theorem Reaches.attempt
    {program : Fallible Call Value ε α}
    {post : Except ε (Except ε α) → σ → Prop}
    (reaches : Reaches respond calm program state fun result reached =>
      post (.ok result) reached) :
    Reaches respond calm (Fallible.attempt program) state post := by
  obtain ⟨answers, kind, holds⟩ := reaches
  refine ⟨answers, kind, ?_⟩
  rw [alone_attempt]
  exact holds

/-- Where success is sure, it is reached. -/
theorem Yields.reaches
    {program : Fallible Call Value ε α} {post : α → σ → Prop}
    {strict : ω → Prop} {answer : ω}
    (yields : Yields respond strict True program state post)
    (kind : strict answer) (implies : ∀ answer, strict answer → calm answer) :
    Reaches respond calm program state fun result reached =>
      ∃ value, result = .ok value ∧ post value reached := by
  refine (Leads.reaches yields kind implies).mono fun result reached holds => ?_
  cases result with
  | error error => exact nomatch holds.2 trivial
  | ok value => exact ⟨value, rfl, holds.1 value rfl⟩

/-- Where the first part surely succeeds, it does so on the way. -/
theorem Yields.reaches_bind
    {program : Fallible Call Value ε α}
    {continuation : α → Fallible Call Value ε β}
    {middle : α → σ → Prop} {post : Except ε β → σ → Prop}
    {strict : ω → Prop} {answer : ω}
    (first : Yields respond strict True program state middle)
    (kind : strict answer) (implies : ∀ answer, strict answer → calm answer)
    (rest : ∀ value reached, middle value reached →
      Reaches respond calm (continuation value) reached post) :
    Reaches respond calm (program >>= continuation) state post := by
  refine (first.reaches kind implies).bind ?_ ?_
  · rintro value reached ⟨_, ⟨⟩, holds⟩
    exact rest value reached holds
  · rintro error reached ⟨_, ⟨⟩, _⟩

/-- A postcondition of every outcome holds of one that is reached. -/
theorem Leads.and_reaches
    {program : Fallible Call Value ε α}
    {always sometimes : Except ε α → σ → Prop}
    (leads : Leads respond calm program state always)
    (reaches : Reaches respond calm program state sometimes) :
    Reaches respond calm program state fun result reached =>
      always result reached ∧ sometimes result reached := by
  obtain ⟨answers, kind, holds⟩ := reaches
  exact ⟨answers, kind, leads answers kind, holds⟩

end Fallible

end Concurrent
end Mailcore

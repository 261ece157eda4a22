import Mathlib.Logic.Function.Basic

/-!
# Leases

An item waits in a shared store until one of many workers leases it, hands it
to a server and settles it.  `Move` lists what one worker can do to one item;
it says nothing about the order of moves, which any interleaving may choose.

Under these moves no two workers hold the item at once, and once the server
has accepted it nobody hands it over again.  The one move that could break
this is `settle`: it puts the item back to waiting, and it is guarded.
-/

namespace Mailcore
namespace Concurrent
namespace Lease

/-- How far one worker has got with the item. -/
inductive Phase
  | idle
  | claimed
  /-- It holds what it will hand over. -/
  | loaded
  /-- The server accepted it. -/
  | accepted
  /-- The server did not. -/
  | refused
  deriving DecidableEq, Repr

/-- Where the store has the item. -/
inductive Standing
  /-- Not created yet. -/
  | unborn
  | waiting
  | leased
  | delivered
  | gone
  deriving DecidableEq, Repr

/-- What an observer sees of a move. -/
inductive Mark
  | nothing
  | handed (accepted : Bool)
  | delivered
  deriving DecidableEq, Repr

/-- The moves of one worker on one item. -/
inductive Move : Standing → Phase → Mark → Standing → Phase → Prop
  | keep {standing phase} : Move standing phase .nothing standing phase
  /-- The item is created in the hands of its creator. -/
  | create {phase} : Move .unborn phase .nothing .leased .claimed
  | deposit {phase} : Move .unborn phase .nothing .waiting phase
  | take {phase} : Move .waiting phase .nothing .leased .claimed
  | load {standing} : Move standing .claimed .nothing standing .loaded
  | accept {standing} :
      Move standing .loaded (.handed true) standing .accepted
  | refuse {standing} :
      Move standing .loaded (.handed false) standing .refused
  /-- The item did not reach the server. -/
  | stop {standing} : Move standing .loaded .nothing standing .refused
  | deliver {standing} (born : standing ≠ .unborn) :
      Move standing .accepted .delivered .delivered .idle
  /-- The worker forgets to say that the item is delivered. -/
  | forget {standing} : Move standing .accepted .nothing standing .idle
  /-- The item waits again: nobody else holds it and it is not delivered. -/
  | settle {standing phase}
      (mayWait : standing = .waiting ∨ standing = .leased ∧ phase ≠ .idle)
      (unaccepted : phase ≠ .accepted) :
      Move standing phase .nothing .waiting .idle
  /-- There is no item to settle. -/
  | release {standing phase}
      (absent : standing = .gone ∨ standing = .unborn) :
      Move standing phase .nothing standing .idle
  | remove {standing phase} (born : standing ≠ .unborn) :
      Move standing phase .nothing .gone phase
  | withdraw {standing phase} (born : standing ≠ .unborn) :
      Move standing phase .nothing .gone .idle

variable {ι : Type}

/-- The invariant of one item, for what all workers hold and for whether it
was ever accepted or delivered. -/
structure Exclusive (standing : Standing) (phase : ι → Phase)
    (accepted delivered : Prop) : Prop where
  unborn : standing = .unborn →
    (∀ who, phase who = .idle) ∧ ¬accepted ∧ ¬delivered
  held : ∀ who, phase who ≠ .idle → standing = .leased ∨ standing = .gone
  unique : ∀ who other, phase who ≠ .idle → phase other ≠ .idle → who = other
  afterAccept : accepted →
    (∀ who, phase who = .idle ∨ phase who = .accepted) ∧
      standing ≠ .waiting
  afterDeliver : delivered →
    (∀ who, phase who = .idle) ∧
      (standing = .delivered ∨ standing = .gone)

/-- Only a worker that holds what it hands over hands anything over. -/
theorem Move.loaded_of_handed
    {standing next : Standing} {phase reached : Phase} {response : Bool}
    (move : Move standing phase (.handed response) next reached) :
    phase = .loaded := by
  cases move <;> rfl

/-- Nobody hands an accepted item over. -/
theorem Exclusive.not_accepted_of_handed
    {standing next : Standing} {phase : ι → Phase} {reached : Phase}
    {accepted delivered : Prop} {who : ι} {response : Bool}
    (exclusive : Exclusive standing phase accepted delivered)
    (move : Move standing (phase who) (.handed response) next reached) :
    ¬accepted := by
  intro wasAccepted
  have loaded := move.loaded_of_handed
  rcases (exclusive.afterAccept wasAccepted).1 who with idle | marked
  · rw [loaded] at idle
    cases idle
  · rw [loaded] at marked
    cases marked

/-- Every move keeps the invariant. -/
theorem Exclusive.move
    [DecidableEq ι]
    {standing next : Standing} {phase : ι → Phase} {mark : Mark}
    {accepted delivered : Prop} {who : ι} {before reached : Phase}
    (exclusive : Exclusive standing phase accepted delivered)
    (here : before = phase who)
    (move : Move standing before mark next reached) :
    Exclusive next (Function.update phase who reached)
      (accepted ∨ mark = .handed true) (delivered ∨ mark = .delivered) := by
  obtain ⟨unborn, held, unique, afterAccept, afterDeliver⟩ := exclusive
  -- One case for each move; in each, what the worker now holds is weighed
  -- against what the others hold.
  cases move
  all_goals
    constructor
    all_goals grind [Function.update_apply]

end Lease
end Concurrent
end Mailcore

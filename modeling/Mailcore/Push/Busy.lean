import Mailcore.Concurrent.Guarded
import Mathlib.Data.List.Chain

/-!
# The busy total of the push monitor

Each account's task counts itself into one total while it works, and the
listener hears of the first that begins and the last that ends, to hold a wake
lock in between.  A task changes the total through a guard, which gives its
share back when it is dropped.

The tasks take turns on one thread and a change awaits nothing, so a run is a
list of whole changes.
-/

namespace Mailcore
namespace Push

open Concurrent

/-- What the guards share of `Ctx`, with what the listener was told. -/
structure Total where
  busy : Int
  /-- The calls of `PushListener::busy`, in order. -/
  told : List Bool
  deriving DecidableEq

/-- Counts its task into the monitor's busy total while `held`. -/
structure Busy where
  held : Bool
  deriving DecidableEq

/-- Count the task in or out. -/
def Busy.set (guard : Busy) (on : Bool) (total : Total) : Busy × Total :=
  if on = guard.held then (guard, total)
  else
    let before := total.busy
    let after := if on then before + 1 else before - 1
    (⟨on⟩, {
      busy := after
      told :=
        if before = 0 ∨ after = 0 then total.told ++ [decide (0 < after)]
        else total.told })

/-- A guard that counts its task in. -/
def Busy.new (total : Total) : Busy × Total := Busy.set ⟨false⟩ true total

/-- `Drop`: the guard gives its share back. -/
def Busy.drop (guard : Busy) (total : Total) : Total :=
  (guard.set false total).2

/-- The guards made so far, `none` for one that was dropped, and their
total. -/
structure Guards where
  guards : List (Option Busy)
  total : Total
  deriving DecidableEq

/-- One change by one of the tasks. -/
inductive Change
  | new
  | set (guard : Nat) (on : Bool)
  | drop (guard : Nat)
  deriving DecidableEq

namespace Guards

/-- Before the first task. -/
def start : Guards := ⟨[], 0, []⟩

/-- The state after a change, if the guard is there. -/
def move : Change → Guards → Option Guards
  | .new, state =>
      let (guard, total) := Busy.new state.total
      some ⟨state.guards ++ [some guard], total⟩
  | .set index on, state =>
      match state.guards[index]? with
      | some (some guard) =>
          let (guard, total) := guard.set on state.total
          some ⟨state.guards.set index (some guard), total⟩
      | _ => none
  | .drop index, state =>
      match state.guards[index]? with
      | some (some guard) =>
          some ⟨state.guards.set index none, guard.drop state.total⟩
      | _ => none

/-- The guards that count their tasks. -/
def holders (state : Guards) : Nat :=
  state.guards.countP fun guard => guard.any Busy.held

end Guards

/-- Calls that alternate, the first of them with true. -/
def Alternates (told : List Bool) : Prop :=
  told.IsChain (· ≠ ·) ∧ told.head? ≠ some false

/-- The last call, false before there is one. -/
def lastTold (told : List Bool) : Bool := told.getLast?.getD false

/-- One more call that differs from the last. -/
theorem Alternates.concat {told : List Bool} {value : Bool}
    (alternates : Alternates told) (differs : value ≠ lastTold told) :
    Alternates (told ++ [value]) := by
  unfold lastTold at differs
  cases last : told.getLast? with
  | none =>
      obtain rfl := List.getLast?_eq_none_iff.mp last
      refine ⟨.singleton _, ?_⟩
      rintro ⟨⟩
      exact differs rfl
  | some before =>
      rw [last, Option.getD_some] at differs
      refine ⟨List.isChain_append.mpr
        ⟨alternates.1, .singleton _, ?_⟩, ?_⟩
      · rintro _ isLast _ ⟨⟩
        rw [last] at isLast
        cases isLast
        exact differs.symm
      · rw [List.head?_append]
        cases told with
        | nil => cases last
        | cons first rest => exact alternates.2

@[simp] theorem lastTold_concat (told : List Bool) (value : Bool) :
    lastTold (told ++ [value]) = value := by
  simp [lastTold]

/-- The total is the number of tasks counted in, and the listener knows whether
there are any. -/
structure Consistent (total : Total) (holders : Nat) : Prop where
  counted : total.busy = holders
  alternates : Alternates total.told
  known : lastTold total.told = decide (0 < total.busy)

/-- A listener told what it does not know yet. -/
theorem Consistent.tell {total : Total} {before after : Nat}
    (consistent : Consistent total before)
    (turns : decide (0 < after) ≠ decide (0 < before)) :
    Consistent ⟨after, total.told ++ [decide ((0 : Int) < after)]⟩ after := by
  have positive (count : Nat) :
      decide ((0 : Int) < count) = decide (0 < count) :=
    decide_eq_decide.mpr Int.natCast_pos
  refine ⟨rfl, consistent.alternates.concat ?_, lastTold_concat _ _⟩
  rw [consistent.known, consistent.counted, positive, positive]
  exact turns

/-- A listener that knows already is told nothing. -/
theorem Consistent.recount {total : Total} {before after : Nat}
    (consistent : Consistent total before)
    (same : 0 < after ↔ 0 < before) :
    Consistent ⟨after, total.told⟩ after := by
  refine ⟨rfl, consistent.alternates, ?_⟩
  rw [consistent.known, consistent.counted, decide_eq_decide, Int.natCast_pos,
    Int.natCast_pos, same]

/-- A guard that changes moves the total by its own share. -/
theorem Consistent.set {total : Total} {others : Nat} {guard : Busy}
    (consistent : Consistent total (others + guard.held.toNat)) (on : Bool) :
    (guard.set on total).1 = ⟨on⟩ ∧
      Consistent (guard.set on total).2 (others + on.toNat) := by
  have counted := consistent.counted
  obtain ⟨held⟩ := guard
  unfold Busy.set
  split
  · next same =>
    subst same
    exact ⟨rfl, consistent⟩
  · next changes =>
    refine ⟨rfl, ?_⟩
    have after : (if on then total.busy + 1 else total.busy - 1) =
        ((others + on.toNat : Nat) : Int) := by
      rw [counted]
      cases on <;> cases held <;> simp at changes ⊢
    dsimp only
    rw [after, counted]
    split
    · next turns =>
      refine consistent.tell ?_
      cases on <;> cases held <;> simp at changes turns ⊢ <;> omega
    · next steady =>
      refine consistent.recount ?_
      cases on <;> cases held <;> simp at changes steady ⊢ <;> omega

namespace Guards

/-- The listener and the total agree with the guards. -/
def Accounted (state : Guards) : Prop := Consistent state.total state.holders

/-- A guard in place counts itself; the others count without it. -/
theorem holders_replace {state : Guards} {index : Nat} {guard : Busy}
    (there : state.guards[index]? = some (some guard)) :
    ∃ others, state.holders = others + guard.held.toNat ∧
      ∀ after total, (⟨state.guards.set index after, total⟩ : Guards).holders =
        others + (after.any Busy.held).toNat := by
  obtain ⟨bound, here⟩ := List.getElem?_eq_some_iff.mp there
  refine ⟨state.holders - guard.held.toNat, ?_, fun after total => ?_⟩
  · refine (Nat.sub_add_cancel ?_).symm
    unfold holders
    cases held : guard.held with
    | false => exact Nat.zero_le _
    | true =>
        refine List.countP_pos_iff.mpr ⟨some guard, ?_, held⟩
        rw [← here]
        exact List.getElem_mem bound
  · unfold holders
    rw [List.countP_set bound, here, Option.any_some]
    cases guard.held <;> cases after.any Busy.held <;> rfl

/-- One change keeps the accounts. -/
theorem Accounted.move {state next : Guards} {change : Change}
    (accounted : state.Accounted) (moved : move change state = some next) :
    next.Accounted := by
  unfold Accounted at accounted ⊢
  cases change with
  | new =>
      cases moved
      have same : state.holders = state.holders + Bool.toNat false := rfl
      rw [same] at accounted
      have consistent := (@Consistent.set _ _ ⟨false⟩ accounted true).2
      simpa [holders, Busy.new, Busy.set] using consistent
  | set index on =>
      simp only [Guards.move] at moved
      split at moved
      · next guard there =>
        cases moved
        obtain ⟨others, before, after⟩ := holders_replace there
        rw [before] at accounted
        rw [after, (accounted.set on).1]
        exact (accounted.set on).2
      · cases moved
  | drop index =>
      simp only [Guards.move] at moved
      split at moved
      · next guard there =>
        cases moved
        obtain ⟨others, before, after⟩ := holders_replace there
        rw [before] at accounted
        rw [after]
        exact (accounted.set false).2
      · cases moved

/-- The accounts hold after any changes in any order. -/
theorem accounted_run (changes : List Change) :
    (Guarded.run move start changes).Accounted :=
  @Guarded.run_invariant _ _ move (fun _ _ => True) Accounted
    (fun _ _ _ accounted _ moved => accounted.move moved)
    _ ⟨rfl, ⟨.nil, by decide⟩, rfl⟩ changes
    (Guarded.runMeets_of_forall (fun _ _ => trivial) _ _)

/-- Whatever the tasks do, in whatever order, the total is the number of tasks
counted in, the listener's calls alternate from true on, and the last of them
tells whether the total is above zero. -/
theorem busy_consistent (changes : List Change) :
    (Guarded.run move start changes).total.busy =
        (Guarded.run move start changes).holders ∧
      0 ≤ (Guarded.run move start changes).total.busy ∧
      Alternates (Guarded.run move start changes).total.told ∧
      lastTold (Guarded.run move start changes).total.told =
        decide (0 < (Guarded.run move start changes).total.busy) := by
  obtain ⟨counted, alternates, known⟩ := accounted_run changes
  exact ⟨counted, counted ▸ Int.natCast_nonneg _, alternates, known⟩

/-- With every guard dropped the listener has let go. -/
theorem idle_of_all_dropped (changes : List Change)
    (dropped : ∀ guard ∈ (Guarded.run move start changes).guards,
      guard = none) :
    lastTold (Guarded.run move start changes).total.told = false := by
  have accounted := accounted_run changes
  have none_ : (Guarded.run move start changes).holders = 0 :=
    List.countP_eq_zero.mpr fun guard member => by simp [dropped guard member]
  rw [accounted.known, accounted.counted, none_]
  rfl

example : (Guarded.run move start [.new, .new, .set 0 false, .set 0 false,
    .set 1 false, .set 1 true, .drop 1, .drop 0]).total =
      ⟨0, [true, false, true, false]⟩ := by decide

end Guards

end Push
end Mailcore

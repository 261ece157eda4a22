import Mathlib.Data.Nat.Basic

/-!
# Ranking

Progress along an unbounded run: a number that never grows and falls at every
fair step until the goal is reached.
-/

namespace Mailcore
namespace Concurrent

/-- Something happens again and again. -/
def Recurs (happens : Nat → Prop) : Prop :=
  ∀ start, ∃ moment, start ≤ moment ∧ happens moment

/-- A rank that fair steps lower reaches the goal. -/
theorem eventually_of_rank
    {goal fair : Nat → Prop}
    (rank : Nat → Nat)
    (recurs : Recurs fair)
    {start : Nat}
    (keeps : ∀ moment, start ≤ moment → ¬ goal moment →
      rank (moment + 1) ≤ rank moment)
    (drops : ∀ moment, start ≤ moment → ¬ goal moment → fair moment →
      rank (moment + 1) < rank moment) :
    ∃ moment, start ≤ moment ∧ goal moment := by
  by_contra never
  have missed : ∀ moment, start ≤ moment → ¬ goal moment := by
    intro moment later reached
    exact never ⟨moment, later, reached⟩
  have falls : ∀ first later, start ≤ first → first ≤ later →
      rank later ≤ rank first := by
    intro first later begun order
    induction later, order using Nat.le_induction with
    | base => exact Nat.le_refl _
    | succ later order inductionHypothesis =>
        have still := Nat.le_trans begun order
        exact Nat.le_trans (keeps later still (missed later still))
          inductionHypothesis
  have low : ∀ bound, ∃ moment, start ≤ moment ∧
      rank moment + bound ≤ rank start := by
    intro bound
    induction bound with
    | zero => exact ⟨start, Nat.le_refl _, Nat.le_refl _⟩
    | succ bound inductionHypothesis =>
        obtain ⟨moment, later, below⟩ := inductionHypothesis
        obtain ⟨next, order, happens⟩ := recurs moment
        have still := Nat.le_trans later order
        have drop := drops next still (missed next still) happens
        have held := falls moment next later order
        exact ⟨next + 1, by omega, by omega⟩
  obtain ⟨moment, _, below⟩ := low (rank start + 1)
  omega

end Concurrent
end Mailcore

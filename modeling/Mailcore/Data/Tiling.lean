import Mathlib.Data.List.Basic

/-!
# Tilings of an interval

Stretches of numbers, the highest first, tile an interval when each begins
right above where the next one ends.  Every number of the interval is then in
exactly one of them, and no other number is in any.
-/

namespace Mailcore
namespace Data

/-- The numbers from a first to a last, both included. -/
structure Stretch where
  first : Nat
  last : Nat
  deriving DecidableEq, Repr

/-- A number of a stretch. -/
def Stretch.Holds (stretch : Stretch) (number : Nat) : Prop :=
  stretch.first ≤ number ∧ number ≤ stretch.last

instance (stretch : Stretch) (number : Nat) :
    Decidable (stretch.Holds number) :=
  inferInstanceAs (Decidable (_ ∧ _))

/-- The stretches are nonempty and lie side by side, from `past` on downwards
to `low`, which belongs to them while `past` does not. -/
inductive Tiles : List Stretch → Nat → Nat → Prop
  | nil (bound : Nat) : Tiles [] bound bound
  | cons {first last low : Nat} {rest : List Stretch}
      (order : first ≤ last) (lower : Tiles rest low first) :
      Tiles (⟨first, last⟩ :: rest) low (last + 1)

namespace Tiles

variable {stretches : List Stretch} {low past : Nat}

theorem one (first last : Nat) (order : first ≤ last) :
    Tiles [⟨first, last⟩] first (last + 1) :=
  .cons order (.nil first)

theorem low_le (tiles : Tiles stretches low past) : low ≤ past := by
  induction tiles with
  | nil bound => exact Nat.le_refl bound
  | cons order lower inductionHypothesis => omega

/-- No stretch is empty or leaves the interval. -/
theorem within (tiles : Tiles stretches low past)
    {stretch : Stretch} (member : stretch ∈ stretches) :
    low ≤ stretch.first ∧ stretch.first ≤ stretch.last ∧
      stretch.last < past := by
  induction tiles with
  | nil bound => exact absurd member List.not_mem_nil
  | cons order lower inductionHypothesis =>
      rcases List.mem_cons.mp member with rfl | later
      · exact ⟨lower.low_le, order, Nat.lt_succ_self _⟩
      · obtain ⟨above, ordered, below⟩ := inductionHypothesis later
        exact ⟨above, ordered, by omega⟩

/-- A number of the interval is in one stretch, any other in none. -/
theorem countP_holds (tiles : Tiles stretches low past) (number : Nat) :
    stretches.countP (fun stretch => stretch.Holds number) =
      if low ≤ number ∧ number < past then 1 else 0 := by
  induction tiles with
  | nil bound =>
      rw [List.countP_nil, if_neg]
      omega
  | @cons first last low rest order lower inductionHypothesis =>
      have beneath := lower.low_le
      rw [List.countP_cons, inductionHypothesis]
      by_cases above : first ≤ number
      · rw [if_neg (by omega), Nat.zero_add]
        simp only [Stretch.Holds, above, true_and, decide_eq_true_eq,
          Nat.lt_succ_iff, Nat.le_trans beneath above]
      · have outside : ¬Stretch.Holds ⟨first, last⟩ number := fun holds =>
          above holds.1
        have before : number < first := Nat.lt_of_not_le above
        have within : number < last + 1 := by omega
        simp only [outside, before, within, and_true, decide_false,
          Bool.false_eq_true, if_false, Nat.add_zero]

end Tiles

end Data
end Mailcore

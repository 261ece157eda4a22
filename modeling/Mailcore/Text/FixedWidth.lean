import Mathlib.Data.List.Basic
import Mathlib.Data.Nat.Digits.Defs
import Mathlib.Tactic.IntervalCases

/-!
# Fixed-width decimals

Numbers written with a fixed number of decimal digits compare as text the way
they compare as numbers, and read back unchanged.
-/

namespace Mailcore
namespace Text

/-- The last `width` decimal digits of a number, most significant first. -/
def digits : Nat → Nat → List Char
  | 0, _ => []
  | width + 1, value => digits width (value / 10) ++ [Nat.digitChar (value % 10)]

/-- The value of a text of decimal digits. -/
def readDigits (text : List Char) : Option Nat :=
  text.foldlM (fun value char =>
    if char.isDigit then some (value * 10 + (char.toNat - 48)) else none) 0

@[simp] theorem length_digits (width value : Nat) :
    (digits width value).length = width := by
  induction width generalizing value with
  | zero => rfl
  | succ width inductionHypothesis => simp [digits, inductionHypothesis]

/-- The first difference decides the order of two texts, whatever follows. -/
theorem append_lt_append
    {first second : List Char}
    (less : first < second)
    (sameLength : first.length = second.length)
    (firstRest secondRest : List Char) :
    first ++ firstRest < second ++ secondRest := by
  induction first generalizing second with
  | nil =>
      cases second with
      | nil => simp at less
      | cons head tail => simp at sameLength
  | cons head tail inductionHypothesis =>
      cases second with
      | nil => simp at sameLength
      | cons otherHead otherTail =>
          simp only [List.length_cons, Nat.add_right_cancel_iff] at sameLength
          simp only [List.cons_append]
          rcases List.cons_lt_cons_iff.mp less with headLess | ⟨same, tailLess⟩
          · exact List.cons_lt_cons_iff.mpr (Or.inl headLess)
          · exact List.cons_lt_cons_iff.mpr
              (Or.inr ⟨same, inductionHypothesis tailLess sameLength⟩)

theorem digitChar_lt_digitChar
    {first second : Nat}
    (less : first < second)
    (bound : second < 10) :
    Nat.digitChar first < Nat.digitChar second := by
  have firstBound : first < 10 := by omega
  interval_cases second <;> interval_cases first <;> first | omega | decide

/-- Fixed-width decimals are in text order when they are in number order. -/
theorem digits_lt_digits
    {width first second : Nat}
    (less : first < second)
    (bound : second < 10 ^ width) :
    digits width first < digits width second := by
  induction width generalizing first second with
  | zero => omega
  | succ width inductionHypothesis =>
      simp only [digits]
      by_cases upper : first / 10 < second / 10
      · apply append_lt_append
        · apply inductionHypothesis upper
          rw [Nat.div_lt_iff_lt_mul (by omega)]
          rwa [pow_succ] at bound
        · simp
      · have same : first / 10 = second / 10 := by omega
        rw [same]
        apply List.append_left_lt
        apply List.cons_lt_cons_iff.mpr
        left
        apply digitChar_lt_digitChar <;> omega

theorem readDigits_append_digitChar
    (text : List Char)
    {digit : Nat}
    (bound : digit < 10) :
    readDigits (text ++ [Nat.digitChar digit]) =
      (readDigits text).map fun value => value * 10 + digit := by
  unfold readDigits
  rw [List.foldlM_append]
  have isDigit : (Nat.digitChar digit).isDigit := by
    interval_cases digit <;> decide
  have value : (Nat.digitChar digit).toNat - 48 = digit := by
    interval_cases digit <;> decide
  cases prior : List.foldlM (fun value char =>
      if Char.isDigit char then some (value * 10 + (char.toNat - 48))
      else none) 0 text with
  | none => rfl
  | some number => simp [isDigit, value]

/-- Fixed-width decimals read back unchanged. -/
theorem readDigits_digits
    {width value : Nat}
    (bound : value < 10 ^ width) :
    readDigits (digits width value) = some value := by
  induction width generalizing value with
  | zero =>
      have zero : value = 0 := by simpa using bound
      subst zero
      rfl
  | succ width inductionHypothesis =>
      rw [digits, readDigits_append_digitChar _ (Nat.mod_lt _ (by omega))]
      rw [inductionHypothesis]
      · simp only [Option.map_some, Option.some.injEq]
        omega
      · rw [Nat.div_lt_iff_lt_mul (by omega)]
        rwa [pow_succ] at bound

end Text
end Mailcore

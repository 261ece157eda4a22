import Mathlib.Algebra.Ring.Nat
import Mathlib.Data.List.Basic

/-!
# Numbers as bits

Numbers of a fixed width written as bits, most significant first.  Regrouping
bits, as base64 does, is splitting and joining such texts.
-/

namespace Mailcore
namespace Data

/-- The `width` low bits of a number, most significant first. -/
def bits : Nat → Nat → List Bool
  | 0, _ => []
  | width + 1, value => bits width (value / 2) ++ [value % 2 == 1]

@[simp] theorem length_bits (width value : Nat) :
    (bits width value).length = width := by
  induction width generalizing value with
  | zero => rfl
  | succ width inductionHypothesis => simp [bits, inductionHypothesis]

/-- The high bits come first, the low ones after them. -/
theorem bits_add (high low value : Nat) :
    bits (high + low) value =
      bits high (value / 2 ^ low) ++ bits low value := by
  induction low generalizing value with
  | zero => simp [bits]
  | succ low inductionHypothesis =>
      rw [← Nat.add_assoc, bits, inductionHypothesis, bits,
        List.append_assoc, Nat.div_div_eq_div_mul, Nat.pow_succ']

/-- Only the value below the width counts. -/
theorem bits_mod (width value : Nat) :
    bits width (value % 2 ^ width) = bits width value := by
  induction width generalizing value with
  | zero => rfl
  | succ width inductionHypothesis =>
      have halves : value % 2 ^ (width + 1) / 2 = value / 2 % 2 ^ width := by
        rw [Nat.pow_succ', Nat.mod_mul_right_div_self]
      have parity : value % 2 ^ (width + 1) % 2 = value % 2 :=
        Nat.mod_mod_of_dvd _ (Nat.pow_succ' ▸ Nat.dvd_mul_right 2 (2 ^ width))
      rw [bits, bits, halves, parity, inductionHypothesis]

/-- A number put together from a high and a low part. -/
theorem bits_join
    (high low top rest : Nat)
    (bound : rest < 2 ^ low) :
    bits (high + low) (top * 2 ^ low + rest) =
      bits high top ++ bits low rest := by
  have upper : (top * 2 ^ low + rest) / 2 ^ low = top := by
    rw [Nat.mul_comm, Nat.mul_add_div (Nat.two_pow_pos low),
      Nat.div_eq_of_lt bound, Nat.add_zero]
  have lower : (top * 2 ^ low + rest) % 2 ^ low = rest := by
    rw [Nat.mul_comm, Nat.mul_add_mod, Nat.mod_eq_of_lt bound]
  rw [bits_add, upper, ← bits_mod low, lower]

theorem bits_inj
    {width first second : Nat}
    (firstBound : first < 2 ^ width)
    (secondBound : second < 2 ^ width)
    (same : bits width first = bits width second) :
    first = second := by
  induction width generalizing first second with
  | zero => omega
  | succ width inductionHypothesis =>
      rw [bits, bits] at same
      obtain ⟨upper, lower⟩ := List.append_inj same (by simp)
      rw [Nat.pow_succ] at firstBound secondBound
      have halves := inductionHypothesis (by omega) (by omega) upper
      have parity : (first % 2 == 1) = (second % 2 == 1) := by
        simpa using lower
      by_cases odd : second % 2 = 1
      · have alsoOdd : first % 2 = 1 := by simpa [odd] using parity
        omega
      · have even : first % 2 ≠ 1 := by simpa [odd] using parity
        omega

theorem length_flatMap_bits (width : Nat) (values : List Nat) :
    (values.flatMap (bits width)).length = values.length * width := by
  induction values with
  | nil => simp
  | cons head tail inductionHypothesis =>
      rw [List.flatMap_cons, List.length_append, inductionHypothesis,
        length_bits, List.length_cons, Nat.succ_mul, Nat.add_comm]

/-- Numbers of one width are read back from their joined bits. -/
theorem flatMap_bits_inj
    (width : Nat)
    {first second : List Nat}
    (firstBound : ∀ value ∈ first, value < 2 ^ width)
    (secondBound : ∀ value ∈ second, value < 2 ^ width)
    (sameLength : first.length = second.length)
    (same : first.flatMap (bits width) = second.flatMap (bits width)) :
    first = second := by
  induction first generalizing second with
  | nil =>
      cases second with
      | nil => rfl
      | cons head tail => simp at sameLength
  | cons head tail inductionHypothesis =>
      cases second with
      | nil => simp at sameLength
      | cons otherHead otherTail =>
          rw [List.flatMap_cons, List.flatMap_cons] at same
          obtain ⟨heads, tails⟩ := List.append_inj same (by simp)
          have sameHead : head = otherHead :=
            bits_inj (firstBound _ List.mem_cons_self)
              (secondBound _ List.mem_cons_self) heads
          have sameTail : tail = otherTail := by
            apply inductionHypothesis
            · intro value member
              exact firstBound value (List.mem_cons_of_mem _ member)
            · intro value member
              exact secondBound value (List.mem_cons_of_mem _ member)
            · simpa using sameLength
            · exact tails
          rw [sameHead, sameTail]

end Data
end Mailcore

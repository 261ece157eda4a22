import Mailcore.Text.FixedWidth
import Mathlib.Data.Int.Order.Basic

/-!
# Decimal integers

64-bit integers as text, and texts split at a separator.
-/

namespace Mailcore
namespace Text

/-- The integers of 64 bits. -/
def InI64 (value : Int) : Prop :=
  -2 ^ 63 ≤ value ∧ value < 2 ^ 63

instance (value : Int) : Decidable (InI64 value) :=
  inferInstanceAs (Decidable (_ ∧ _))

/-- A text of one or more decimal digits. -/
def readNat (text : List Char) : Option Nat :=
  if text.isEmpty then none else readDigits text

/-- `str::parse::<i64>`: an optional sign, digits, and a value in range. -/
def parseI64 (text : String) : Option Int :=
  let value : Option Int :=
    match text.toList with
    | '-' :: digits => (readNat digits).map fun (value : Nat) => -(value : Int)
    | '+' :: digits => (readNat digits).map fun (value : Nat) => (value : Int)
    | digits => (readNat digits).map fun (value : Nat) => (value : Int)
  value.filter fun value => decide (InI64 value)

/-- `str::split_once` at one character. -/
def splitOnce (separator : Char) (text : String) : Option (String × String) :=
  let before := text.toList.takeWhile (· != separator)
  match text.toList.dropWhile (· != separator) with
  | [] => none
  | _ :: after => some (String.ofList before, String.ofList after)

/-- A decimal number reads back. -/
theorem readDigits_toDigits (value : Nat) :
    readDigits (Nat.toDigits 10 value) = some value := by
  induction value using Nat.strongRecOn with
  | ind value inductionHypothesis =>
      by_cases small : value < 10
      · rw [Nat.toDigits_of_lt_base small]
        have single := readDigits_append_digitChar [] small
        rw [List.nil_append] at single
        rw [single]
        change some (0 * 10 + value) = some value
        rw [Nat.zero_mul, Nat.zero_add]
      · rw [Nat.toDigits_of_base_le (by omega) (by omega),
          readDigits_append_digitChar _ (Nat.mod_lt _ (by omega)),
          inductionHypothesis _ (by omega), Option.map_some]
        congr 1
        omega

theorem readNat_repr (value : Nat) :
    readNat value.repr.toList = some value := by
  have nonempty : (Nat.toDigits 10 value).isEmpty = false := by
    rw [List.isEmpty_eq_false_iff]
    exact Nat.toDigits_ne_nil
  rw [readNat, Nat.toList_repr, nonempty, readDigits_toDigits]
  rfl

/-- A digit is no sign and no separator. -/
theorem isDigit_of_mem_repr {value : Nat} {char : Char}
    (member : char ∈ value.repr.toList) : char.isDigit := by
  rw [Nat.toList_repr] at member
  exact Nat.isDigit_of_mem_toDigits (by decide) (by decide) member

/-- A separator that is neither a digit nor a sign stands in no integer. -/
theorem notMem_repr {separator : Char}
    (noDigit : separator.isDigit = false) (noSign : separator ≠ '-')
    (value : Int) : separator ∉ value.repr.toList := by
  have inNat : ∀ value : Nat, separator ∉ value.repr.toList := by
    intro value member
    rw [isDigit_of_mem_repr member] at noDigit
    cases noDigit
  rw [Int.repr_eq_if]
  split
  · exact inNat _
  · rw [String.toList_append, List.mem_append, not_or]
    refine ⟨?_, inNat _⟩
    intro member
    exact noSign (by simpa using member)

/-- A written integer is parsed back. -/
theorem parseI64_repr {value : Int} (bound : InI64 value) :
    parseI64 value.repr = some value := by
  have inRange : decide (InI64 value) = true := decide_eq_true bound
  rw [parseI64, Int.repr_eq_if]
  by_cases positive : 0 ≤ value
  · rw [if_pos positive]
    have read := readNat_repr value.toNat
    have back : ((value.toNat : Nat) : Int) = value := Int.toNat_of_nonneg positive
    have digits : ∀ char ∈ value.toNat.repr.toList, char.isDigit :=
      fun char => isDigit_of_mem_repr
    cases text : value.toNat.repr.toList with
    | nil =>
        rw [text] at read
        cases read
    | cons head tail =>
        have headDigit := digits head (text ▸ List.mem_cons_self)
        rw [text] at read
        have notMinus : head ≠ '-' := by
          rintro rfl
          exact absurd headDigit (by decide)
        have notPlus : head ≠ '+' := by
          rintro rfl
          exact absurd headDigit (by decide)
        simp [read, back, inRange, notMinus, notPlus]
  · rw [if_neg positive, String.toList_append]
    have read := readNat_repr (-value).toNat
    have back : -(((-value).toNat : Nat) : Int) = value := by
      rw [Int.toNat_of_nonneg (by omega)]
      omega
    change ((readNat (-value).toNat.repr.toList).map _).filter _ = _
    rw [read, Option.map_some]
    rw [back]
    simp [inRange]

/-- What was joined at a separator is split there again. -/
theorem splitOnce_join {separator : Char} {first : String}
    (clean : separator ∉ first.toList) (second : String) :
    splitOnce separator (first ++ String.singleton separator ++ second) =
      some (first, second) := by
  have differs : ∀ char ∈ first.toList, (char != separator) = true := by
    intro char member
    rw [bne_iff_ne]
    rintro rfl
    exact clean member
  have joined : (first ++ String.singleton separator ++ second).toList =
      first.toList ++ separator :: second.toList := by
    simp [String.toList_append]
  have before : (first.toList ++ separator :: second.toList).takeWhile
      (· != separator) = first.toList := by
    rw [List.takeWhile_append_of_pos differs]
    simp
  have after : (first.toList ++ separator :: second.toList).dropWhile
      (· != separator) = separator :: second.toList := by
    rw [List.dropWhile_append_of_pos differs]
    simp
  rw [splitOnce, joined]
  simp only [before, after, String.ofList_toList]

end Text
end Mailcore

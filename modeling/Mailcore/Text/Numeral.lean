import Mathlib.Data.List.Basic
import Mathlib.Data.Option.Basic

/-!
# Numerals

Unsigned numbers written to a radix of at most sixteen.
-/

namespace Mailcore
namespace Text

/-- `char::to_digit`. -/
def digitValue (radix : Nat) (char : Char) : Option Nat :=
  let value :=
    if '0' ≤ char ∧ char ≤ '9' then some (char.toNat - 48)
    else if 'a' ≤ char ∧ char ≤ 'f' then some (char.toNat - 87)
    else if 'A' ≤ char ∧ char ≤ 'F' then some (char.toNat - 55)
    else none
  value.filter fun value => decide (value < radix)

/-- The value of a text of digits, none of which count as zero. -/
def readNumeral (radix : Nat) (text : List Char) : Option Nat :=
  text.foldlM (fun value char =>
    (digitValue radix char).map fun digit => value * radix + digit) 0

/-- `from_str_radix` of an unsigned type with the values below `bound`. -/
def parseUnsigned (radix bound : Nat) (text : List Char) : Option Nat :=
  let digits := if text.head? = some '+' then text.tail else text
  if digits = [] then none
  else (readNumeral radix digits).filter fun value => decide (value < bound)

theorem digitValue_ten {char : Char} (digit : char.isDigit) :
    digitValue 10 char = some (char.toNat - 48) := by
  simp only [Char.isDigit, Bool.and_eq_true, decide_eq_true_eq] at digit
  have small : char.toNat - 48 < 10 := by
    have upper : char.toNat ≤ 57 := digit.2
    omega
  have range : '0' ≤ char ∧ char ≤ '9' := digit
  simp [digitValue, range, small]

theorem isDigit_of_digitValue_ten
    {char : Char} {value : Nat}
    (read : digitValue 10 char = some value) :
    char.isDigit := by
  unfold digitValue at read
  simp only [Option.filter_eq_some_iff, decide_eq_true_eq] at read
  obtain ⟨read, small⟩ := read
  split_ifs at read with decimal lower upper
  · simp only [Char.isDigit, Bool.and_eq_true, decide_eq_true_eq]
    exact decimal
  · have least : 97 ≤ char.toNat := lower.1
    simp only [Option.some.injEq] at read
    omega
  · have least : 65 ≤ char.toNat := upper.1
    simp only [Option.some.injEq] at read
    omega

theorem foldlM_digits_isSome
    {text : List Char}
    (digits : ∀ char ∈ text, char.isDigit)
    (value : Nat) :
    (text.foldlM (fun value char =>
      (digitValue 10 char).map fun digit => value * 10 + digit) value).isSome := by
  induction text generalizing value with
  | nil => rfl
  | cons char text inductionHypothesis =>
      rw [List.foldlM_cons, digitValue_ten (digits char List.mem_cons_self)]
      exact inductionHypothesis
        (fun char member => digits char (List.mem_cons_of_mem _ member)) _

/-- Every text of decimal digits is a numeral. -/
theorem exists_readNumeral_ten
    {text : List Char}
    (digits : ∀ char ∈ text, char.isDigit) :
    ∃ value, readNumeral 10 text = some value :=
  Option.isSome_iff_exists.mp (foldlM_digits_isSome digits 0)

theorem isSome_of_foldlM
    {radix : Nat} {text : List Char} {start value : Nat}
    (read : text.foldlM (fun value char =>
      (digitValue radix char).map fun digit => value * radix + digit) start =
        some value) :
    ∀ char ∈ text, (digitValue radix char).isSome := by
  induction text generalizing start with
  | nil => simp
  | cons char text inductionHypothesis =>
      rw [List.foldlM_cons] at read
      cases first : digitValue radix char with
      | none => simp [first] at read
      | some digit =>
          simp only [first, Option.map_some, Option.bind_eq_bind,
            Option.bind_some] at read
          intro other member
          rcases List.mem_cons.mp member with rfl | member
          · rw [first]
            rfl
          · exact inductionHypothesis read other member

/-- A numeral has only digits. -/
theorem isSome_of_readNumeral
    {radix : Nat} {text : List Char} {value : Nat}
    (read : readNumeral radix text = some value) :
    ∀ char ∈ text, (digitValue radix char).isSome :=
  isSome_of_foldlM read

theorem isDigit_of_readNumeral_ten
    {text : List Char} {value : Nat}
    (read : readNumeral 10 text = some value) :
    ∀ char ∈ text, char.isDigit := by
  intro char member
  obtain ⟨digit, isDigit⟩ :=
    Option.isSome_iff_exists.mp (isSome_of_readNumeral read char member)
  exact isDigit_of_digitValue_ten isDigit

/-- A decimal text is parsed to its value wherever that fits. -/
theorem parseUnsigned_ten
    {text : List Char} {value bound : Nat}
    (read : readNumeral 10 text = some value)
    (nonempty : text ≠ [])
    (fits : value < bound) :
    parseUnsigned 10 bound text = some value := by
  have unsigned : text.head? ≠ some '+' := by
    intro sign
    have digit := isDigit_of_readNumeral_ten read '+'
      (List.mem_of_head? sign)
    exact absurd digit (by decide)
  simp [parseUnsigned, unsigned, nonempty, read, fits]

end Text
end Mailcore

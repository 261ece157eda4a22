import Mathlib.Data.List.Basic

/-!
# The lines of a text

`str::lines`, and the texts that a list of lines can be written as: each line
ended by LF or CRLF, the last one perhaps by nothing.
-/

namespace Mailcore
namespace Text

/-- `str::lines`. -/
def lines : List Char → List (List Char)
  | [] => []
  | '\n' :: rest => [] :: lines rest
  | '\r' :: '\n' :: rest => [] :: lines rest
  | char :: rest =>
      match lines rest with
      | [] => [[char]]
      | line :: later => (char :: line) :: later

/-- No part of a line end stands in a line. -/
def Unbroken (line : List Char) : Prop :=
  '\n' ∉ line ∧ '\r' ∉ line

instance (line : List Char) : Decidable (Unbroken line) :=
  inferInstanceAs (Decidable (_ ∧ _))

/-- A text that writes the lines. -/
inductive WrittenAs : List (List Char) → List Char → Prop
  | done : WrittenAs [] []
  | last {line : List Char} : line ≠ [] → Unbroken line → WrittenAs [line] line
  | lf {line : List Char} {later : List (List Char)} {text : List Char} :
      Unbroken line → WrittenAs later text → WrittenAs (line :: later) (line ++ '\n' :: text)
  | crlf {line : List Char} {later : List (List Char)} {text : List Char} :
      Unbroken line → WrittenAs later text →
        WrittenAs (line :: later) (line ++ '\r' :: '\n' :: text)

@[simp]
theorem lines_nil : lines [] = [] := rfl

@[simp]
theorem lines_lf_cons (rest : List Char) : lines ('\n' :: rest) = [] :: lines rest := rfl

@[simp]
theorem lines_crlf_cons (rest : List Char) :
    lines ('\r' :: '\n' :: rest) = [] :: lines rest := rfl

/-- A character that ends no line stands in the first one. -/
theorem lines_cons_of {char : Char} {rest : List Char} (notLf : char ≠ '\n')
    (notCrlf : ∀ later, char = '\r' → rest ≠ '\n' :: later) :
    lines (char :: rest) =
      match lines rest with
      | [] => [[char]]
      | line :: later => (char :: line) :: later :=
  lines.eq_4 char rest notLf notCrlf

theorem lines_cons {char : Char} (notLf : char ≠ '\n') (notCr : char ≠ '\r') (rest : List Char) :
    lines (char :: rest) =
      match lines rest with
      | [] => [[char]]
      | line :: later => (char :: line) :: later :=
  lines_cons_of notLf fun _ isCr => absurd isCr notCr

theorem Unbroken.of_cons {char : Char} {line : List Char} (unbroken : Unbroken (char :: line)) :
    char ≠ '\n' ∧ char ≠ '\r' ∧ Unbroken line := by
  obtain ⟨noLf, noCr⟩ := unbroken
  rw [List.mem_cons, not_or] at noLf noCr
  exact ⟨Ne.symm noLf.1, Ne.symm noCr.1, noLf.2, noCr.2⟩

/-- A line in front of another text joins its first line. -/
theorem lines_append {line text first : List Char} {later : List (List Char)}
    (unbroken : Unbroken line) (cut : lines text = first :: later) :
    lines (line ++ text) = (line ++ first) :: later := by
  induction line with
  | nil => exact cut
  | cons char line inductionHypothesis =>
      obtain ⟨notLf, notCr, unbroken⟩ := unbroken.of_cons
      rw [List.cons_append, lines_cons notLf notCr, inductionHypothesis unbroken]
      rfl

theorem lines_lf {line : List Char} (unbroken : Unbroken line) (text : List Char) :
    lines (line ++ '\n' :: text) = line :: lines text := by
  rw [lines_append unbroken (lines_lf_cons text), List.append_nil]

theorem lines_crlf {line : List Char} (unbroken : Unbroken line) (text : List Char) :
    lines (line ++ '\r' :: '\n' :: text) = line :: lines text := by
  rw [lines_append unbroken (lines_crlf_cons text), List.append_nil]

theorem lines_unbroken {line : List Char} (nonempty : line ≠ []) (unbroken : Unbroken line) :
    lines line = [line] := by
  induction line with
  | nil => exact absurd rfl nonempty
  | cons char line inductionHypothesis =>
      obtain ⟨notLf, notCr, unbroken⟩ := unbroken.of_cons
      rw [lines_cons notLf notCr]
      by_cases empty : line = []
      · rw [empty, lines_nil]
      · rw [inductionHypothesis empty unbroken]

/-- No line has a line feed in it. -/
theorem notMem_of_mem_lines {text line : List Char} (member : line ∈ lines text) :
    '\n' ∉ line := by
  induction text using lines.induct generalizing line with
  | case1 => cases member
  | case2 rest inductionHypothesis =>
      rw [lines_lf_cons] at member
      rcases List.mem_cons.mp member with rfl | later
      · exact List.not_mem_nil
      · exact inductionHypothesis later
  | case3 rest inductionHypothesis =>
      rw [lines_crlf_cons] at member
      rcases List.mem_cons.mp member with rfl | later
      · exact List.not_mem_nil
      · exact inductionHypothesis later
  | case4 char rest notLf notCrlf cut inductionHypothesis =>
      rw [lines_cons_of notLf notCrlf, cut] at member
      rw [List.mem_singleton.mp member, List.mem_singleton]
      exact Ne.symm notLf
  | case5 char rest notLf notCrlf first later cut inductionHypothesis =>
      rw [lines_cons_of notLf notCrlf, cut] at member
      rcases List.mem_cons.mp member with rfl | inside
      · rw [List.mem_cons, not_or]
        exact ⟨Ne.symm notLf, inductionHypothesis (cut ▸ List.mem_cons_self)⟩
      · exact inductionHypothesis (cut ▸ List.mem_cons_of_mem _ inside)

/-- A CRLF ends a line whatever carriage returns stand in it. -/
theorem lines_crlf_of_notMem {line : List Char} (noLf : '\n' ∉ line) (text : List Char) :
    lines (line ++ '\r' :: '\n' :: text) = line :: lines text := by
  induction line with
  | nil => exact lines_crlf_cons text
  | cons char line inductionHypothesis =>
      rw [List.mem_cons, not_or] at noLf
      have notCrlf : ∀ later, char = '\r' → line ++ '\r' :: '\n' :: text ≠ '\n' :: later := by
        rintro later rfl same
        cases line with
        | nil => cases same
        | cons next line =>
            have first := (List.cons.inj same).1
            exact noLf.2 (first ▸ List.mem_cons_self)
      rw [List.cons_append, lines_cons_of (Ne.symm noLf.1) notCrlf, inductionHypothesis noLf.2]

/-- The lines that a text was written from are read back from it. -/
theorem lines_of_writtenAs {all : List (List Char)} {text : List Char}
    (written : WrittenAs all text) : lines text = all := by
  induction written with
  | done => exact lines_nil
  | last nonempty unbroken => exact lines_unbroken nonempty unbroken
  | lf unbroken _ inductionHypothesis => rw [lines_lf unbroken, inductionHypothesis]
  | crlf unbroken _ inductionHypothesis => rw [lines_crlf unbroken, inductionHypothesis]

end Text
end Mailcore

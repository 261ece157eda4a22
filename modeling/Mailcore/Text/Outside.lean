import Mathlib.Data.List.Basic

/-!
# Cutting outside quotes

A text cut at the separators that do not stand between quotes, beside one cut
at all of them.
-/

namespace Mailcore
namespace Text

section Scan

variable {α : Type} [DecidableEq α] (separates : α → Bool) (quote : α)

/-- Whether what follows a letter stands between quotes. -/
def quotedBehind (quoted : Bool) (letter : α) : Bool :=
  if letter = quote then !quoted else quoted

/-- A separator outside quotes. -/
def cutsAt (quoted : Bool) (letter : α) : Bool :=
  decide (letter ≠ quote) && separates letter && !quoted

/-- The pieces between the separators outside quotes. -/
def splitOutside (quoted : Bool) : List α → List (List α)
  | [] => [[]]
  | letter :: text =>
      if cutsAt separates quote quoted letter then [] :: splitOutside quoted text
      else (splitOutside (quotedBehind quote quoted letter) text).modifyHead (letter :: ·)

/-- A separator stands between quotes. -/
def hidesSeparator (quoted : Bool) : List α → Bool
  | [] => false
  | letter :: text =>
      (quoted && separates letter) || hidesSeparator (quotedBehind quote quoted letter) text

/-- The last separator outside quotes, with what stands around it. -/
def lastOutside (quoted : Bool) : List α → Option (List α × List α)
  | [] => none
  | letter :: text =>
      match lastOutside (quotedBehind quote quoted letter) text with
      | some (front, back) => some (letter :: front, back)
      | none => if cutsAt separates quote quoted letter then some ([letter], text) else none

end Scan

variable {α : Type}

/-- A letter in one of the pieces stays there. -/
theorem exists_mem_modifyHead {letter : α} {pieces : List (List α)} {holds : α → Prop}
    (found : ∃ piece ∈ pieces, ∃ other ∈ piece, holds other) :
    ∃ piece ∈ pieces.modifyHead (letter :: ·), ∃ other ∈ piece, holds other := by
  obtain ⟨piece, member, other, inside, here⟩ := found
  cases pieces with
  | nil => cases member
  | cons first later =>
      rcases List.mem_cons.mp member with rfl | behind
      · exact ⟨letter :: piece, List.mem_cons_self, other, List.mem_cons_of_mem _ inside, here⟩
      · exact ⟨piece, List.mem_cons_of_mem _ behind, other, inside, here⟩

theorem modifyHead_append_singleton {letter : α} {pieces : List (List α)}
    (nonempty : pieces ≠ []) (back : List α) :
    (pieces ++ [back]).modifyHead (letter :: ·) =
      pieces.modifyHead (letter :: ·) ++ [back] := by
  obtain ⟨first, later, rfl⟩ := List.exists_cons_of_ne_nil nonempty
  rfl

section Scan

variable [DecidableEq α] {separates : α → Bool} {quote : α}

theorem separates_of_cutsAt {quoted : Bool} {letter : α}
    (cuts : cutsAt separates quote quoted letter) :
    separates letter ∧ quotedBehind quote quoted letter = quoted ∧ quoted = false := by
  simp only [cutsAt, Bool.and_eq_true, decide_eq_true_eq, Bool.not_eq_true'] at cuts
  exact ⟨cuts.1.2, if_neg cuts.1.1, cuts.2⟩

theorem splitOutside_ne_nil (quoted : Bool) (text : List α) :
    splitOutside separates quote quoted text ≠ [] := by
  induction text generalizing quoted with
  | nil => exact List.cons_ne_nil _ _
  | cons letter text inductionHypothesis =>
      rw [splitOutside]
      split_ifs
      · exact List.cons_ne_nil _ _
      · simpa using inductionHypothesis _

/-- Where no separator is hidden, quotes make no difference. -/
theorem splitOutside_eq_splitOnP (plain : separates quote = false) {quoted : Bool} {text : List α}
    (shown : hidesSeparator separates quote quoted text = false) :
    splitOutside separates quote quoted text = text.splitOnP separates := by
  induction text generalizing quoted with
  | nil => rfl
  | cons letter text inductionHypothesis =>
      rw [hidesSeparator, Bool.or_eq_false_iff, Bool.and_eq_false_iff] at shown
      have later := inductionHypothesis shown.2
      rw [splitOutside, List.splitOnP_cons_eq_if_modifyHead]
      by_cases cuts : cutsAt separates quote quoted letter = true
      · obtain ⟨separator, same, -⟩ := separates_of_cutsAt cuts
        rw [same] at later
        rw [if_pos cuts, if_pos separator, later]
      · have kept : separates letter = false := by
          by_contra separator
          rw [Bool.not_eq_false] at separator
          apply cuts
          have outside : quoted = false := shown.1.resolve_right (by simp [separator])
          have other : letter ≠ quote := by
            rintro rfl
            rw [plain] at separator
            cases separator
          simp [cutsAt, separator, outside, other]
        rw [if_neg cuts, if_neg (by simp [kept]), later]

/-- A hidden separator is left in a piece. -/
theorem exists_hidden {quoted : Bool} {text : List α}
    (hidden : hidesSeparator separates quote quoted text = true) :
    ∃ piece ∈ splitOutside separates quote quoted text, ∃ letter ∈ piece, separates letter := by
  induction text generalizing quoted with
  | nil => cases hidden
  | cons letter text inductionHypothesis =>
      rw [hidesSeparator, Bool.or_eq_true, Bool.and_eq_true] at hidden
      rw [splitOutside]
      by_cases cuts : cutsAt separates quote quoted letter = true
      · obtain ⟨-, same, outside⟩ := separates_of_cutsAt cuts
        rw [same, outside] at hidden
        obtain ⟨piece, member, found⟩ := inductionHypothesis (hidden.resolve_left (by simp))
        rw [if_pos cuts, outside]
        exact ⟨piece, List.mem_cons_of_mem _ member, found⟩
      · rw [if_neg cuts]
        rcases hidden with ⟨-, separator⟩ | later
        · have nonempty : splitOutside separates quote (quotedBehind quote quoted letter) text ≠ [] :=
            splitOutside_ne_nil _ text
          obtain ⟨first, others, same⟩ := List.exists_cons_of_ne_nil nonempty
          rw [same]
          exact ⟨letter :: first, List.mem_cons_self, letter, List.mem_cons_self, separator⟩
        · exact exists_mem_modifyHead (inductionHypothesis later)

/-- Without a separator outside quotes the text is one piece. -/
theorem splitOutside_of_lastOutside_none {quoted : Bool} {text : List α}
    (nothing : lastOutside separates quote quoted text = none) :
    splitOutside separates quote quoted text = [text] := by
  induction text generalizing quoted with
  | nil => rfl
  | cons letter text inductionHypothesis =>
      rw [lastOutside] at nothing
      split at nothing
      · cases nothing
      · next later =>
        split_ifs at nothing with cuts
        rw [splitOutside, if_neg cuts, inductionHypothesis later]
        rfl

/-- In front of the last separator outside quotes stand the other pieces, and
behind it the last one. -/
theorem splitOutside_of_lastOutside {quoted : Bool} {text front back : List α}
    (found : lastOutside separates quote quoted text = some (front, back)) :
    ∃ inner separator, front = inner ++ [separator] ∧ text = front ++ back ∧
      separates separator ∧ splitOutside separates quote quoted text =
        splitOutside separates quote quoted inner ++ [back] ∧
      (hidesSeparator separates quote quoted text = false →
        hidesSeparator separates quote quoted inner = false) := by
  induction text generalizing quoted front with
  | nil => cases found
  | cons letter text inductionHypothesis =>
      rw [lastOutside] at found
      split at found
      · next before rest later =>
        obtain ⟨rfl, rfl⟩ : letter :: before = front ∧ rest = back := by simpa using found
        obtain ⟨inner, separator, rfl, rfl, separated, pieces, shown⟩ := inductionHypothesis later
        refine ⟨letter :: inner, separator, rfl, rfl, separated, ?_, ?_⟩
        · rw [splitOutside, splitOutside]
          by_cases cuts : cutsAt separates quote quoted letter = true
          · rw [if_pos cuts, if_pos cuts, ← (separates_of_cutsAt cuts).2.1, pieces]
            rfl
          · rw [if_neg cuts, if_neg cuts, pieces,
              modifyHead_append_singleton (splitOutside_ne_nil _ _)]
        · rw [hidesSeparator, hidesSeparator, Bool.or_eq_false_iff, Bool.or_eq_false_iff]
          exact fun both => ⟨both.1, shown both.2⟩
      · next later =>
        split_ifs at found with cuts
        obtain ⟨rfl, rfl⟩ : [letter] = front ∧ text = back := by simpa using found
        obtain ⟨separated, same, -⟩ := separates_of_cutsAt cuts
        rw [same] at later
        refine ⟨[], letter, rfl, rfl, separated, ?_, fun _ => rfl⟩
        calc
          splitOutside separates quote quoted (letter :: text) =
              [] :: splitOutside separates quote quoted text := by rw [splitOutside, if_pos cuts]
          _ = [] :: [text] := by rw [splitOutside_of_lastOutside_none later]

end Scan

end Text
end Mailcore

import Mathlib.Data.List.Infix

/-!
# Wildcard patterns

A pattern is a sequence of letters to be met exactly and of runs that stand for
any number of allowed letters.  A closed pattern followed by a run of anything
means "begins with"; it means "begins with this text" only when the closed
pattern is that text.
-/

namespace Mailcore
namespace Text

/-- One position of a pattern. -/
inductive Glyph (α : Type)
  | exactly (letter : α)
  | run (allowed : α → Bool)

namespace Glyph

variable {α : Type} [DecidableEq α]

/-- Whether a pattern matches a text. -/
def meets : List (Glyph α) → List α → Bool
  | [], text => text.isEmpty
  | .exactly letter :: pattern, text =>
      text.head? = some letter && meets pattern text.tail
  | .run allowed :: pattern, text =>
      (List.range (text.length + 1)).any fun taken =>
        (text.take taken).all allowed && meets pattern (text.drop taken)

/-- The run that stands for everything. -/
def anything : Glyph α := .run fun _ => true

/-- The letters of a pattern that are met exactly. -/
def fixed : List (Glyph α) → List α
  | [] => []
  | .exactly letter :: pattern => letter :: fixed pattern
  | .run _ :: pattern => fixed pattern

theorem meets_exactly
    {letter : α} {pattern : List (Glyph α)} {text : List α} :
    meets (.exactly letter :: pattern) text ↔
      ∃ rest, text = letter :: rest ∧ meets pattern rest := by
  cases text with
  | nil => simp [meets]
  | cons first rest =>
      simp only [meets, List.head?_cons, Option.some.injEq,
        List.tail_cons, Bool.and_eq_true, decide_eq_true_eq, List.cons.injEq]
      constructor
      · rintro ⟨same, matched⟩
        exact ⟨rest, ⟨same, rfl⟩, matched⟩
      · rintro ⟨_, ⟨same, rfl⟩, matched⟩
        exact ⟨same, matched⟩

theorem meets_run
    {allowed : α → Bool} {pattern : List (Glyph α)} {text : List α} :
    meets (.run allowed :: pattern) text ↔
      ∃ taken rest, text = taken ++ rest ∧ (∀ letter ∈ taken, allowed letter) ∧
        meets pattern rest := by
  simp only [meets, List.any_eq_true, List.mem_range, Bool.and_eq_true,
    List.all_eq_true]
  constructor
  · rintro ⟨count, _, permitted, matched⟩
    exact ⟨_, _, (List.take_append_drop count text).symm, permitted, matched⟩
  · rintro ⟨taken, rest, rfl, permitted, matched⟩
    refine ⟨taken.length, ?_, ?_, ?_⟩
    · rw [List.length_append]
      omega
    · rwa [List.take_left]
    · rwa [List.drop_left]

/-- Exact letters in front of a pattern stand in front of what it matches. -/
theorem meets_exact_append
    (stem : List α) {pattern : List (Glyph α)} {text : List α} :
    meets (stem.map .exactly ++ pattern) text ↔
      ∃ rest, text = stem ++ rest ∧ meets pattern rest := by
  induction stem generalizing text with
  | nil => simp
  | cons letter stem inductionHypothesis =>
      simp only [List.map_cons, List.cons_append, meets_exactly,
        inductionHypothesis]
      constructor
      · rintro ⟨_, rfl, rest, rfl, matched⟩
        exact ⟨rest, rfl, matched⟩
      · rintro ⟨rest, rfl, matched⟩
        exact ⟨_, rfl, rest, rfl, matched⟩

theorem meets_anything (text : List α) : meets [anything] text := by
  refine meets_run.mpr ⟨text, [], (List.append_nil text).symm, ?_, rfl⟩
  intro _ _
  rfl

/-- Text followed by anything is what begins with the text. -/
theorem meets_exact_anything
    (stem : List α) {text : List α} :
    meets (stem.map .exactly ++ [anything]) text ↔ stem <+: text := by
  rw [meets_exact_append]
  constructor
  · rintro ⟨rest, rfl, _⟩
    exact List.prefix_append stem rest
  · rintro ⟨rest, rfl⟩
    exact ⟨rest, rfl, meets_anything rest⟩

/-- Runs may be empty: the fixed letters alone are matched. -/
theorem meets_fixed_append
    (front : List (Glyph α)) {pattern : List (Glyph α)} {text : List α}
    (matched : meets pattern text) :
    meets (front ++ pattern) (fixed front ++ text) := by
  induction front with
  | nil => exact matched
  | cons glyph front inductionHypothesis =>
      cases glyph with
      | exactly letter =>
          exact meets_exactly.mpr ⟨_, rfl, inductionHypothesis⟩
      | run allowed =>
          exact meets_run.mpr ⟨[], _, rfl, by simp, inductionHypothesis⟩

/-- What is matched contains the fixed letters in their order. -/
theorem fixed_sublist
    {pattern : List (Glyph α)} {text : List α}
    (matched : meets pattern text) : (fixed pattern).Sublist text := by
  induction pattern generalizing text with
  | nil => exact List.nil_sublist text
  | cons glyph pattern inductionHypothesis =>
      cases glyph with
      | exactly letter =>
          obtain ⟨rest, rfl, later⟩ := meets_exactly.mp matched
          exact (inductionHypothesis later).cons_cons letter
      | run allowed =>
          obtain ⟨taken, rest, rfl, _, later⟩ := meets_run.mp matched
          exact (inductionHypothesis later).trans
            (List.sublist_append_right taken rest)

omit [DecidableEq α] in
@[simp] theorem fixed_append (first second : List (Glyph α)) :
    fixed (first ++ second) = fixed first ++ fixed second := by
  induction first with
  | nil => rfl
  | cons glyph first inductionHypothesis =>
      cases glyph <;> simp [fixed, inductionHypothesis]

/-- A run that allows, next to any letter, some other one. -/
def Wide : Glyph α → Prop
  | .exactly _ => True
  | .run allowed => ∀ letter, ∃ other, allowed other ∧ other ≠ letter

/-- A pattern that, followed by anything, means "begins with the stem" has the
stem as its fixed letters. -/
theorem eq_fixed_of_begins
    {front : List (Glyph α)} {stem : List α}
    (begins : ∀ text, meets (front ++ [anything]) text ↔ stem <+: text) :
    stem = fixed front := by
  have leads : stem <+: fixed front := by
    have matched := meets_fixed_append front (meets_anything [])
    rw [List.append_nil] at matched
    exact (begins _).mp matched
  have within : (fixed front).Sublist stem := by
    have contained := fixed_sublist ((begins stem).mpr List.prefix_rfl)
    simpa [anything, fixed] using contained
  exact leads.eq_of_length_le within.length_le

/-- If its last glyph is a letter, it has no run at all: any run could be
filled with a letter other than the one that follows it. -/
theorem eq_exact_of_begins
    {front : List (Glyph α)} {stem : List α}
    (wide : ∀ glyph ∈ front, glyph.Wide)
    {last : α} {before : List (Glyph α)}
    (closed : front = before ++ [.exactly last])
    (begins : ∀ text, meets (front ++ [anything]) text ↔ stem <+: text) :
    front = stem.map .exactly := by
  have stemFixed := eq_fixed_of_begins begins
  have noRun : ∀ allowed, Glyph.run allowed ∉ front := by
    intro allowed member
    obtain ⟨early, late, split⟩ := List.append_of_mem member
    have lateClosed : ∃ letter more, fixed late = letter :: more := by
      have nonempty : late ≠ [] := by
        rintro rfl
        have same := split.symm.trans closed
        have lastSame := congrArg List.getLast? same
        simp at lastSame
      have lastSame := congrArg List.getLast? (split.symm.trans closed)
      rw [List.getLast?_append_of_ne_nil _ (by simp),
        List.getLast?_cons_of_ne_nil nonempty, List.getLast?_concat] at lastSame
      obtain ⟨lead, rfl⟩ := List.getLast?_eq_some_iff.mp lastSame
      rw [fixed_append]
      cases leadFixed : fixed lead with
      | nil => exact ⟨last, [], rfl⟩
      | cons letter more => exact ⟨letter, _, rfl⟩
    obtain ⟨letter, more, lateFixed⟩ := lateClosed
    obtain ⟨other, permitted, different⟩ := wide _ member letter
    have matched : meets (front ++ [anything])
        (fixed early ++ other :: fixed late) := by
      rw [split, List.append_assoc]
      refine meets_fixed_append early (meets_run.mpr
        ⟨[other], fixed late, rfl, by simpa using permitted, ?_⟩)
      have rest := meets_fixed_append late (meets_anything ([] : List α))
      rwa [List.append_nil] at rest
    obtain ⟨rest, same⟩ := (begins _).mp matched
    rw [stemFixed, split, fixed_append, fixed, lateFixed, List.append_assoc]
      at same
    have tails := List.append_cancel_left same
    simp only [List.cons_append, List.cons.injEq] at tails
    exact different tails.1.symm
  rw [stemFixed]
  clear closed begins stemFixed wide
  induction front with
  | nil => rfl
  | cons glyph front inductionHypothesis =>
      cases glyph with
      | exactly letter =>
          rw [fixed, List.map_cons, ← inductionHypothesis fun allowed member =>
            noRun allowed (List.mem_cons_of_mem _ member)]
      | run allowed => exact absurd List.mem_cons_self (noRun allowed)

end Glyph

end Text
end Mailcore

import Mailcore.Contacts.Score
import Mailcore.Text.Outside

/-!
# The recipient field

The field is one text.  The form cuts it at every separator, the completer at
those outside quotes; what the completer inserts is the entry of a contact.
-/

namespace Mailcore
namespace Compose

open Contacts (Contact)
open Html (trim)
open Outbox (isWhitespace)
open Text (splitOutside lastOutside hidesSeparator quotedBehind cutsAt)

/-- `,` and `;` both separate. -/
def isSeparator (c : Char) : Bool :=
  c = ',' || c = ';'

/-- The pieces of a field, trimmed, without the blank ones. -/
def entriesOf (pieces : List (List Char)) : List (List Char) :=
  (pieces.map trim).filter (· ≠ [])

/-- The recipients `ComposeForm::parse` reads in a field. -/
def addresses (field : List Char) : List (List Char) :=
  entriesOf ((trim field).splitOnP isSeparator)

/-- One character of `last_separator`. -/
def separatorTurn (state : Bool × Option Nat) (here : Char × Nat) : Bool × Option Nat :=
  if here.1 = '"' then (!state.1, state.2)
  else if isSeparator here.1 && !state.1 then (state.1, some here.2)
  else state

/-- Index of the last `,` or `;` outside double quotes, if any. -/
def lastSeparator (text : List Char) : Option Nat :=
  (text.zipIdx.foldl separatorTurn (false, none)).2

/-- The address currently being typed. -/
def recipientSegment (text : List Char) : List Char :=
  trim (text.drop ((lastSeparator text).elim 0 (· + 1)))

/-- The field after completing its current segment. -/
def replaceRecipientSegment (text replacement : List Char) : List Char :=
  match lastSeparator text with
  | some i => text.take (i + 1) ++ ' ' :: replacement
  | none => replacement

/-- A name without separators, where something is left of it. -/
def usable (s : Option (List Char)) : Option (List Char) :=
  (s.map fun s => trim (s.map fun c => if isSeparator c then ' ' else c)).filter (· ≠ [])

/-- What the composer inserts for a picked contact. -/
def recipientEntry (c : Contact) : List Char :=
  match (usable c.alias_).or (usable c.name) with
  | some d => d ++ " <".toList ++ c.address ++ ['>']
  | none => c.address

/-- The segments that the completer sees. -/
def segments (field : List Char) : List (List Char) :=
  entriesOf (splitOutside isSeparator '"' false field)

/-! ## The last separator -/

theorem separatorTurn_eq (quoted : Bool) (last : Option Nat) (c : Char) (i : Nat) :
    separatorTurn (quoted, last) (c, i) = (quotedBehind '"' quoted c,
      if cutsAt isSeparator '"' quoted c then some i else last) := by
  unfold separatorTurn quotedBehind cutsAt
  by_cases opens : c = '"'
  · simp [opens]
  · cases isSeparator c <;> cases quoted <;> simp [opens]

theorem foldl_separatorTurn (quoted : Bool) (last : Option Nat) (start : Nat) (text : List Char) :
    ((text.zipIdx start).foldl separatorTurn (quoted, last)).2 =
      match lastOutside isSeparator '"' quoted text with
      | some (front, _) => some (start + (front.length - 1))
      | none => last := by
  induction text generalizing quoted last start with
  | nil => rfl
  | cons c text inductionHypothesis =>
      rw [List.zipIdx_cons, List.foldl_cons, separatorTurn_eq, inductionHypothesis, lastOutside]
      cases found : lastOutside isSeparator '"' (quotedBehind '"' quoted c) text with
      | none =>
          dsimp only
          split_ifs <;> simp
      | some sides =>
          obtain ⟨front, back⟩ := sides
          obtain ⟨inner, separator, rfl, -⟩ := Text.splitOutside_of_lastOutside found
          dsimp only
          simp
          omega

theorem recipientSegment_of_none {field : List Char}
    (nothing : lastOutside isSeparator '"' false field = none) (replacement : List Char) :
    recipientSegment field = trim field ∧
      replaceRecipientSegment field replacement = replacement := by
  have last : lastSeparator field = none := by
    rw [lastSeparator, foldl_separatorTurn, nothing]
  rw [recipientSegment, replaceRecipientSegment, last]
  exact ⟨rfl, rfl⟩

theorem recipientSegment_of_some {field front back : List Char}
    (found : lastOutside isSeparator '"' false field = some (front, back))
    (replacement : List Char) :
    recipientSegment field = trim back ∧
      replaceRecipientSegment field replacement = front ++ ' ' :: replacement := by
  obtain ⟨inner, separator, rfl, rfl, -⟩ := Text.splitOutside_of_lastOutside found
  have last : lastSeparator (inner ++ [separator] ++ back) = some inner.length := by
    rw [lastSeparator, foldl_separatorTurn, found]
    simp
  have long : inner.length + 1 = (inner ++ [separator]).length := by simp
  rw [recipientSegment, replaceRecipientSegment, last, Option.elim_some, long, List.drop_left]
  dsimp only
  rw [long, List.take_left]
  exact ⟨rfl, rfl⟩

/-! ## Spaces around a field -/

theorem trim_cons {c : Char} (blank : isWhitespace c) (text : List Char) :
    trim (c :: text) = trim text := by
  rw [trim, trim, Text.strip, Text.strip, List.dropWhile_cons_of_pos blank]

theorem trim_concat {c : Char} (blank : isWhitespace c) (text : List Char) :
    trim (text ++ [c]) = trim text := by
  rw [trim, trim, Text.strip, Text.strip, List.dropWhile_append]
  split_ifs with empty
  · rw [List.isEmpty_iff.mp empty, List.dropWhile_cons_of_pos blank]
    rfl
  · exact List.rdropWhile_concat_pos _ _ _ blank

theorem isSeparator_of_isWhitespace {c : Char} (blank : isWhitespace c) : isSeparator c = false := by
  by_contra separator
  simp only [isSeparator, Bool.not_eq_false, Bool.or_eq_true, decide_eq_true_eq] at separator
  rcases separator with rfl | rfl <;> exact absurd blank (by decide)

/-- Pieces are the same but for a space at an end. -/
def Padded (c : Char) (piece padded : List Char) : Prop :=
  padded = piece ∨ padded = piece ++ [c]

theorem padded_splitOnP {c : Char} (blank : isWhitespace c) (text : List Char) :
    List.Forall₂ (Padded c) (text.splitOnP isSeparator) ((text ++ [c]).splitOnP isSeparator) := by
  have plain := isSeparator_of_isWhitespace blank
  induction text with
  | nil =>
      rw [List.splitOnP_nil, List.nil_append, List.splitOnP_eq_singleton (by simp [plain])]
      exact .cons (.inr rfl) .nil
  | cons first text inductionHypothesis =>
      rw [List.cons_append, List.splitOnP_cons_eq_if_modifyHead,
        List.splitOnP_cons_eq_if_modifyHead]
      split_ifs
      · exact .cons (.inl rfl) inductionHypothesis
      · generalize text.splitOnP isSeparator = pieces at inductionHypothesis
        generalize (text ++ [c]).splitOnP isSeparator = padded at inductionHypothesis
        cases inductionHypothesis with
        | nil => exact .nil
        | cons here later =>
            refine .cons ?_ later
            rcases here with rfl | rfl
            · exact .inl rfl
            · exact .inr rfl

theorem entriesOf_padded {c : Char} (blank : isWhitespace c) {pieces padded : List (List Char)}
    (same : List.Forall₂ (Padded c) pieces padded) : entriesOf padded = entriesOf pieces := by
  have trimmed : padded.map trim = pieces.map trim := by
    induction same with
    | nil => rfl
    | cons here later inductionHypothesis =>
        rw [List.map_cons, List.map_cons, inductionHypothesis]
        rcases here with rfl | rfl
        · rfl
        · rw [trim_concat blank]
  rw [entriesOf, entriesOf, trimmed]

theorem entriesOf_modifyHead {c : Char} (blank : isWhitespace c) (pieces : List (List Char)) :
    entriesOf (pieces.modifyHead (c :: ·)) = entriesOf pieces := by
  cases pieces with
  | nil => rfl
  | cons first later =>
      rw [List.modifyHead_cons, entriesOf, entriesOf, List.map_cons, List.map_cons,
        trim_cons blank]

/-- The form may trim a field first: spaces around it do not count. -/
theorem addresses_eq (field : List Char) :
    addresses field = entriesOf (field.splitOnP isSeparator) := by
  have front : ∀ text : List Char, entriesOf ((text.dropWhile isWhitespace).splitOnP isSeparator) =
      entriesOf (text.splitOnP isSeparator) := by
    intro text
    induction text with
    | nil => rfl
    | cons c text inductionHypothesis =>
        cases blank : isWhitespace c with
        | false => rw [List.dropWhile_cons_of_neg (by simp [blank])]
        | true =>
            have plain := isSeparator_of_isWhitespace blank
            rw [List.dropWhile_cons_of_pos blank, inductionHypothesis,
              List.splitOnP_cons_eq_if_modifyHead, if_neg (by simp [plain]),
              entriesOf_modifyHead blank]
  have back : ∀ text : List Char, entriesOf ((text.rdropWhile isWhitespace).splitOnP isSeparator) =
      entriesOf (text.splitOnP isSeparator) := by
    intro text
    induction text using List.reverseRecOn with
    | nil => rfl
    | append_singleton text c inductionHypothesis =>
        cases blank : isWhitespace c with
        | false => rw [List.rdropWhile_concat_neg _ _ _ (by simp [blank])]
        | true =>
            rw [List.rdropWhile_concat_pos _ _ _ blank, inductionHypothesis]
            exact (entriesOf_padded blank (padded_splitOnP blank text)).symm
  rw [addresses, trim, Text.strip, back, front]

end Compose
end Mailcore

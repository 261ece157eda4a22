import Mailcore.Html.Fit
import Mailcore.Text.Lines

/-!
# Content lines

`content_line.rs`, shared by iCalendar and vCard: unfolding, the split of a line
into name, parameters and value, and the unescaping of texts and parameters.
-/

namespace Mailcore
namespace Content

open Html (trim)
open Text (splitOnceAt)

/-- `to_ascii_uppercase`. -/
def asciiUpper (text : List Char) : List Char :=
  text.map Char.toUpper

/-- Unfold lines: CRLF or LF followed by a space or tab is deleted. -/
def unfold : List Char → List Char
  | [] => []
  | '\r' :: '\n' :: ' ' :: rest => unfold rest
  | '\r' :: '\n' :: '\t' :: rest => unfold rest
  | '\r' :: '\n' :: rest => '\n' :: unfold rest
  | '\n' :: ' ' :: rest => unfold rest
  | '\n' :: '\t' :: rest => unfold rest
  | '\n' :: rest => '\n' :: unfold rest
  | c :: rest => c :: unfold rest

/-- Unescape a text value. -/
def unescapeText : List Char → List Char
  | [] => []
  | '\\' :: c :: rest => (if c = 'n' || c = 'N' then '\n' else c) :: unescapeText rest
  | c :: rest => c :: unescapeText rest

/-- The caret escapes of a parameter value. -/
def unescapeCarets : List Char → List Char
  | [] => []
  | '^' :: c :: rest =>
      if c = 'n' || c = 'N' then '\n' :: unescapeCarets rest
      else if c = '\'' then '"' :: unescapeCarets rest
      else if c = '^' then '^' :: unescapeCarets rest
      else '^' :: c :: unescapeCarets rest
  | c :: rest => c :: unescapeCarets rest

/-- Without a quote at both ends, or the whole text. -/
def unquoted (raw : List Char) : List Char :=
  if raw.head? = some '"' && raw.tail.getLast? = some '"' then raw.tail.dropLast else raw

/-- Decode a parameter value. -/
def paramValue (raw : List Char) : List Char :=
  unescapeCarets (unquoted (trim raw))

/-- One content line: upper-cased name, parameters (upper-cased names, decoded
values) and the raw value. -/
structure ContentLine where
  name : List Char
  params : List (List Char × List Char)
  value : List Char
  deriving DecidableEq, Repr

/-- The first parameter of a name. -/
def ContentLine.param (line : ContentLine) (name : String) : Option (List Char) :=
  (line.params.find? fun param => param.1 = name.toList).map Prod.snd

/-- The segments in front of the first `:` outside quotes, cut at each `;`
outside quotes, and what stands behind it. -/
def splitHead : Bool → List Char → Option (List (List Char) × List Char)
  | _, [] => none
  | inQuotes, c :: rest =>
      if c = '"' then
        (splitHead (!inQuotes) rest).map fun (segments, value) =>
          (segments.modifyHead (c :: ·), value)
      else if c = ';' && !inQuotes then
        (splitHead inQuotes rest).map fun (segments, value) => ([] :: segments, value)
      else if c = ':' && !inQuotes then some ([[]], rest)
      else
        (splitHead inQuotes rest).map fun (segments, value) =>
          (segments.modifyHead (c :: ·), value)

/-- One parameter. -/
def readParam (p : List Char) : List Char × List Char :=
  match splitOnceAt ['='] p with
  | some (n, v) => (asciiUpper (trim n), paramValue v)
  | none => (asciiUpper (trim p), [])

/-- Split a content line at the first `:` outside a double-quoted parameter
value, and its name/parameter part at each such `;`. -/
def parseContentLine (line : List Char) : Option ContentLine := do
  let (segments, value) ← splitHead false line
  let (name, params) ← segments.head?.map fun name => (name, segments.tail)
  let name := asciiUpper (trim name)
  if name = [] then none
  else
    some ⟨name, (params.filter fun p => trim p ≠ []).map readParam, value⟩

end Content
end Mailcore

/-!
## Unfolded lines

A line end in front of a blank goes with the blank, any other one ends a line.
-/

namespace Mailcore
namespace Content

open Text (Unbroken lines)

/-- A space or a tab. -/
def isBlank (char : Char) : Bool :=
  char = ' ' || char = '\t'

/-- CRLF, or LF alone. -/
def lineEnd (crlf : Bool) : List Char :=
  if crlf then ['\r', '\n'] else ['\n']

/-- A text that does not go on with a blank. -/
def Flush (text : List Char) : Prop :=
  ∀ char ∈ text.head?, isBlank char = false

theorem flush_cons {char : Char} {text : List Char} :
    Flush (char :: text) ↔ isBlank char = false := by
  simp [Flush]

theorem Flush.append {text : List Char} (flush : Flush text) (nonempty : text ≠ [])
    (rest : List Char) : Flush (text ++ rest) := by
  intro char first
  rw [List.head?_append_of_ne_nil _ nonempty] at first
  exact flush char first

theorem flush_lineEnd (crlf : Bool) (rest : List Char) : Flush (lineEnd crlf ++ rest) := by
  cases crlf <;> exact flush_cons.mpr (by decide)

theorem eq_of_isBlank {char : Char} (blank : isBlank char) : char = ' ' ∨ char = '\t' := by
  simpa [isBlank] using blank

theorem unfold_cons {char : Char} (notLf : char ≠ '\n') (notCr : char ≠ '\r')
    (rest : List Char) : unfold (char :: rest) = char :: unfold rest := by
  rw [unfold]
  all_goals intros
  all_goals first | exact notLf ‹_› | exact notCr ‹_›

theorem unfold_append {line : List Char} (unbroken : Unbroken line) (text : List Char) :
    unfold (line ++ text) = line ++ unfold text := by
  induction line with
  | nil => rfl
  | cons char line inductionHypothesis =>
      obtain ⟨notLf, notCr, unbroken⟩ := unbroken.of_cons
      rw [List.cons_append, unfold_cons notLf notCr, inductionHypothesis unbroken]
      rfl

/-- A fold is deleted. -/
theorem unfold_blank {blank : Char} (isBlank_ : isBlank blank) (crlf : Bool)
    (text : List Char) : unfold (lineEnd crlf ++ blank :: text) = unfold text := by
  rcases eq_of_isBlank isBlank_ with rfl | rfl <;> cases crlf <;> rw [lineEnd] <;> rfl

theorem unfold_lineEnd {text : List Char} (flush : Flush text) (crlf : Bool) :
    unfold (lineEnd crlf ++ text) = '\n' :: unfold text := by
  cases text with
  | nil => cases crlf <;> rfl
  | cons char text =>
      have apart : char ≠ ' ' ∧ char ≠ '\t' := by
        simpa [isBlank] using flush_cons.mp flush
      cases crlf with
      | true =>
          change unfold ('\r' :: '\n' :: char :: text) = _
          rw [unfold.eq_4]
          · exact fun _ same => absurd (List.cons.inj same).1 apart.1
          · exact fun _ same => absurd (List.cons.inj same).1 apart.2
      | false =>
          change unfold ('\n' :: char :: text) = _
          rw [unfold.eq_7]
          · exact fun _ same => absurd (List.cons.inj same).1 apart.1
          · exact fun _ same => absurd (List.cons.inj same).1 apart.2

/-- A line that is not folded is a line of the unfolded text. -/
theorem lines_unfold {line text : List Char} (unbroken : Unbroken line) (flush : Flush text)
    (crlf : Bool) :
    lines (unfold (line ++ lineEnd crlf ++ text)) = line :: lines (unfold text) := by
  rw [List.append_assoc, unfold_append unbroken, unfold_lineEnd flush, Text.lines_lf unbroken]

end Content
end Mailcore

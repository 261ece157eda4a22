import Mailcore.Report.Delivery

/-!
# Reports as they are written

Groups of fields, each field on a line of its own with its folds behind it, and
blank lines between the groups. `blocks` reads the groups back, whatever the
folds and however many blank lines.
-/

namespace Mailcore
namespace Report

open Html (trim)
open Text (Unbroken WrittenAs lines)

/-- A field as a report writes it: the line with its name, and the folded lines
behind that. -/
structure WrittenField where
  name : List Char
  value : List Char
  folds : List (List Char)
  colonless : ':' ∉ name
  opening : ∀ char ∈ name.head?, char ≠ ' ' ∧ char ≠ '\t'
  folded : ∀ fold ∈ folds, (fold.head? = some ' ' ∨ fold.head? = some '\t') ∧ trim fold ≠ []
  deriving DecidableEq

/-- The lines of a field. -/
def WrittenField.lines (field : WrittenField) : List (List Char) :=
  (field.name ++ ':' :: field.value) :: field.folds

/-- Lines on which groups of fields are laid out, with blank lines between them
and anywhere around. -/
inductive LaidOut : List (List WrittenField) → List (List Char) → Prop
  | none : LaidOut [] []
  | blank {groups : List (List WrittenField)} {line : List Char} {lines : List (List Char)} :
      trim line = [] → LaidOut groups lines → LaidOut groups (line :: lines)
  | last {group : List WrittenField} :
      group ≠ [] → LaidOut [group] (group.flatMap WrittenField.lines)
  | group {group : List WrittenField} {groups : List (List WrittenField)} {line : List Char}
      {lines : List (List Char)} :
      group ≠ [] → trim line = [] → LaidOut groups lines →
        LaidOut (group :: groups) (group.flatMap WrittenField.lines ++ line :: lines)

/-- What `blocks` makes of the folds of a field. -/
def unfolded (folds : List (List Char)) : List Char :=
  folds.flatMap fun fold => ' ' :: trim fold

/-- A field as `blocks` reads it. -/
def WrittenField.read (field : WrittenField) : Field :=
  (trim field.name, trim field.value ++ unfolded field.folds)

theorem trim_ne_nil {char : Char} {line : List Char} (member : char ∈ line)
    (solid : Outbox.isWhitespace char = false) : trim line ≠ [] :=
  List.ne_nil_of_mem (Text.mem_strip member solid)

theorem appendToLast_concat (line : List Char) (front : List Field) (name value : List Char) :
    appendToLast line (front ++ [(name, value)]) = front ++ [(name, value ++ ' ' :: line)] := by
  induction front with
  | nil => rfl
  | cons field front inductionHypothesis =>
      obtain ⟨next, later, shape⟩ :=
        List.exists_cons_of_ne_nil (List.append_ne_nil_of_right_ne_nil front
          (List.cons_ne_nil (name, value) []))
      rw [List.cons_append, List.cons_append, shape, appendToLast.eq_3 _ _ _ (by simp), ← shape,
        inductionHypothesis]

theorem readLine_blank {line : List Char} (blank : trim line = []) (state : Reading) :
    readLine state line =
      if state.current ≠ [] then ⟨state.out ++ [state.current], []⟩ else state := by
  rw [readLine, if_pos blank]

theorem readLine_name (field : WrittenField) (state : Reading) :
    readLine state (field.name ++ ':' :: field.value) =
      ⟨state.out, state.current ++ [(trim field.name, trim field.value)]⟩ := by
  have colon : ':' ∈ field.name ++ ':' :: field.value := by simp
  have solid : trim (field.name ++ ':' :: field.value) ≠ [] := trim_ne_nil colon (by decide)
  have opens : ¬([' ', '\t'].any fun blank =>
      (field.name ++ ':' :: field.value).head? = some blank) = true := by
    have opening := field.opening
    cases named : field.name with
    | nil => simp
    | cons first name =>
        have apart := opening first (by rw [named]; rfl)
        simp [apart.1, apart.2]
  rw [readLine, if_neg solid, if_neg opens, Text.splitOnceAt_separator field.colonless]

theorem readLine_fold {fold : List Char}
    (folded : (fold.head? = some ' ' ∨ fold.head? = some '\t') ∧ trim fold ≠ [])
    (out : List (List Field)) (front : List Field) (name value : List Char) :
    readLine ⟨out, front ++ [(name, value)]⟩ fold =
      ⟨out, front ++ [(name, value ++ ' ' :: trim fold)]⟩ := by
  have begins : ([' ', '\t'].any fun blank => fold.head? = some blank) = true := by
    simpa using folded.1
  rw [readLine, if_neg folded.2, if_pos begins, appendToLast_concat]

theorem foldl_folds {folds : List (List Char)}
    (folded : ∀ fold ∈ folds, (fold.head? = some ' ' ∨ fold.head? = some '\t') ∧ trim fold ≠ [])
    (out : List (List Field)) (front : List Field) (name value : List Char) :
    folds.foldl readLine ⟨out, front ++ [(name, value)]⟩ =
      ⟨out, front ++ [(name, value ++ unfolded folds)]⟩ := by
  induction folds generalizing value with
  | nil => simp [unfolded]
  | cons fold folds inductionHypothesis =>
      rw [List.foldl_cons, readLine_fold (folded _ List.mem_cons_self),
        inductionHypothesis fun other member => folded other (List.mem_cons_of_mem _ member)]
      simp [unfolded]

/-- The lines of a field add it to the block. -/
theorem foldl_field (field : WrittenField) (state : Reading) :
    field.lines.foldl readLine state = ⟨state.out, state.current ++ [field.read]⟩ := by
  rw [WrittenField.lines, List.foldl_cons, readLine_name, foldl_folds field.folded,
    WrittenField.read]

theorem foldl_group (group : List WrittenField) (state : Reading) :
    (group.flatMap WrittenField.lines).foldl readLine state =
      ⟨state.out, state.current ++ group.map WrittenField.read⟩ := by
  induction group generalizing state with
  | nil => simp
  | cons field group inductionHypothesis =>
      rw [List.flatMap_cons, List.foldl_append, foldl_field, inductionHypothesis]
      simp

/-- From the end of a block, the lines add the groups laid out on them. -/
theorem foldl_laidOut {groups : List (List WrittenField)} {lines : List (List Char)}
    (laid : LaidOut groups lines) (out : List (List Field)) :
    (lines.foldl readLine ⟨out, []⟩).finish =
      out ++ groups.map fun group => group.map WrittenField.read := by
  induction laid generalizing out with
  | none => simp [Reading.finish]
  | blank blank _ inductionHypothesis =>
      rw [List.foldl_cons, readLine_blank blank, if_neg (by simp), inductionHypothesis]
  | last nonempty =>
      rw [foldl_group]
      simp [Reading.finish, nonempty]
  | @group group groups line later nonempty blank _ inductionHypothesis =>
      have read : group.map WrittenField.read ≠ [] := by simpa using nonempty
      rw [List.foldl_append, foldl_group, List.foldl_cons, readLine_blank blank, List.nil_append,
        if_pos read, inductionHypothesis, List.map_cons, List.append_assoc, List.singleton_append]

/-- `blocks` reads the groups of a report back. -/
theorem blocks_of_laidOut {groups : List (List WrittenField)} {all : List (List Char)}
    {text : List Char} (laid : LaidOut groups all) (written : WrittenAs all text) :
    blocks text = groups.map fun group => group.map WrittenField.read := by
  rw [blocks, Text.lines_of_writtenAs written, foldl_laidOut laid, List.nil_append]

end Report
end Mailcore

import Mailcore.Html.Urls
import Mailcore.Text.Lines

/-!
# The stored header block

An export keeps the top-level headers as they were stored, without those that
the rebuilt body brings along: `filter_raw_headers`, and the fields that a block
of stored lines is made of.
-/

namespace Mailcore
namespace Export

open Html (trim)
open Text (lines splitOnceAt asciiLower lines_crlf_of_notMem notMem_of_mem_lines)

abbrev Line := List Char

/-- The header fields that the body supplies. -/
def MIME_BODY_HEADERS : List (List Char) :=
  ["content-type", "content-transfer-encoding", "content-disposition", "content-length",
    "mime-version"].map String.toList

def isMimeBodyHeader (name : List Char) : Bool :=
  MIME_BODY_HEADERS.any fun h => asciiLower name = h

/-- A line that goes on with the field before it. -/
def isContinuation (line : Line) : Bool :=
  line.head? = some ' ' || line.head? = some '\t'

/-- A line with its end. -/
def withCrlf (line : Line) : List Char :=
  line ++ ['\r', '\n']

/-- `line.trim_end_matches('\r')`. -/
def withoutCr (line : Line) : Line :=
  line.rdropWhile (· = '\r')

/-- One stored line; the flag says that the field it may go on with is left out. -/
def filterLine (state : List Char × Bool) (line : Line) : List Char × Bool :=
  let (out, skipping) := state
  let line := withoutCr line
  if isContinuation line then
    if skipping then (out, skipping) else (out ++ withCrlf line, skipping)
  else
    match splitOnceAt [':'] line with
    | some (name, _) =>
        if isMimeBodyHeader (trim name) then (out, true) else (out ++ withCrlf line, false)
    -- Not a header (nor a continuation): it would end the header block early.
    | none => (out, true)

/-- The stored top-level headers minus the MIME ones the rebuilt body supplies,
as CRLF lines. -/
def filterRawHeaders (raw : List Char) : List Char :=
  ((lines raw).foldl filterLine ([], false)).1

/-! ## Stored fields -/

/-- The name of the field that a line starts. -/
def fieldName (line : Line) : Option (List Char) :=
  (splitOnceAt [':'] line).map fun (name, _) => trim name

/-- A header field: the line with its name, and the lines that go on with it. -/
structure StoredField where
  first : Line
  folded : List Line

/-- The fields of a list of lines.  A line in front of the first field, or behind a
line that is none, belongs to no field. -/
def fieldsOf : List Line → List StoredField
  | [] => []
  | line :: later =>
      if isContinuation line || (fieldName line).isNone then fieldsOf later
      else ⟨line, later.takeWhile isContinuation⟩ :: fieldsOf later

def storedFields (raw : List Char) : List StoredField :=
  fieldsOf ((lines raw).map withoutCr)

def StoredField.isMimeBody (field : StoredField) : Bool :=
  (fieldName field.first).any isMimeBodyHeader

def StoredField.lines (field : StoredField) : List Line :=
  field.first :: field.folded

/-- The lines of the fields that are no MIME body ones. -/
def keptLines (fields : List StoredField) : List Line :=
  (fields.filter fun field => !field.isMimeBody).flatMap StoredField.lines

/-- The header block is the complete stored fields but the MIME body ones, in
order, and no line in it is the empty one that ends a header block. -/
def IsHeaderBlock (raw out : List Char) : Prop :=
  out = (keptLines (storedFields raw)).flatMap withCrlf ∧ [] ∉ lines out

/-! ## What the filter keeps -/

section FilterLine

variable {line : Line} (out : List Char) (skipping : Bool)

theorem filterLine_continued (continued : isContinuation (withoutCr line) = true) :
    filterLine (out, skipping) line =
      (if skipping then out else out ++ withCrlf (withoutCr line), skipping) := by
  unfold filterLine
  dsimp only
  rw [if_pos continued]
  cases skipping <;> rfl

theorem filterLine_stray (starts : isContinuation (withoutCr line) = false)
    (noName : fieldName (withoutCr line) = none) :
    filterLine (out, skipping) line = (out, true) := by
  rw [fieldName, Option.map_eq_none_iff] at noName
  unfold filterLine
  dsimp only
  rw [starts, noName]
  rfl

theorem filterLine_field (starts : isContinuation (withoutCr line) = false) {name : List Char}
    (named : fieldName (withoutCr line) = some name) :
    filterLine (out, skipping) line =
      if isMimeBodyHeader name then (out, true)
      else (out ++ withCrlf (withoutCr line), false) := by
  rw [fieldName, Option.map_eq_some_iff] at named
  obtain ⟨⟨front, value⟩, cut, rfl⟩ := named
  unfold filterLine
  dsimp only
  rw [starts, cut]
  rfl

end FilterLine

theorem fieldsOf_continued {line : Line} (continued : isContinuation line = true)
    (later : List Line) : fieldsOf (line :: later) = fieldsOf later := by
  rw [fieldsOf, continued, Bool.true_or, if_pos rfl]

theorem fieldsOf_stray {line : Line} (noName : fieldName line = none) (later : List Line) :
    fieldsOf (line :: later) = fieldsOf later := by
  rw [fieldsOf, noName, Option.isNone_none, Bool.or_true, if_pos rfl]

theorem fieldsOf_field {line : Line} (starts : isContinuation line = false) {name : List Char}
    (named : fieldName line = some name) (later : List Line) :
    fieldsOf (line :: later) = ⟨line, later.takeWhile isContinuation⟩ :: fieldsOf later := by
  rw [fieldsOf, starts, named]
  rfl

theorem isMimeBody_mk {line : Line} {name : List Char} (named : fieldName line = some name)
    (folded : List Line) : (StoredField.mk line folded).isMimeBody = isMimeBodyHeader name := by
  rw [StoredField.isMimeBody, named]
  rfl

theorem keptLines_cons (field : StoredField) (fields : List StoredField) :
    keptLines (field :: fields) =
      if field.isMimeBody then keptLines fields
      else field.first :: (field.folded ++ keptLines fields) := by
  rw [keptLines, List.filter_cons]
  cases field.isMimeBody <;> rfl

/-- The lines that the filter keeps of those ahead: the ones that go on with a field
that it did not skip, and the fields. -/
def keptAhead (skipping : Bool) (ahead : List Line) : List Line :=
  (if skipping then [] else ahead.takeWhile isContinuation) ++ keptLines (fieldsOf ahead)

theorem keptAhead_starts {line : Line} (starts : isContinuation line = false) (skipping : Bool)
    (later : List Line) :
    keptAhead skipping (line :: later) = keptLines (fieldsOf (line :: later)) := by
  rw [keptAhead, List.takeWhile_cons, starts]
  cases skipping <;> rfl

theorem foldl_filterLine (stored : List Line) (out : List Char) (skipping : Bool) :
    (stored.foldl filterLine (out, skipping)).1 =
      out ++ (keptAhead skipping (stored.map withoutCr)).flatMap withCrlf := by
  induction stored generalizing out skipping with
  | nil => cases skipping <;> exact (List.append_nil out).symm
  | cons line later inductionHypothesis =>
      rw [List.foldl_cons, List.map_cons]
      cases starts : isContinuation (withoutCr line) with
      | true =>
          -- The line belongs to the field before it, if it belongs to any.
          rw [filterLine_continued out skipping starts, inductionHypothesis, keptAhead, keptAhead,
            fieldsOf_continued starts, List.takeWhile_cons, starts]
          cases skipping with
          | true => rfl
          | false => exact List.append_assoc _ _ _
      | false =>
          rw [keptAhead_starts starts]
          cases named : fieldName (withoutCr line) with
          | none =>
              rw [filterLine_stray out skipping starts named, inductionHypothesis,
                fieldsOf_stray named]
              rfl
          | some name =>
              rw [filterLine_field out skipping starts named, fieldsOf_field starts named,
                keptLines_cons, isMimeBody_mk named]
              cases isMimeBodyHeader name with
              | true => exact inductionHypothesis out true
              | false =>
                  refine (inductionHypothesis _ false).trans ?_
                  exact List.append_assoc _ _ _

/-- The lines in front of the first line that is no continuation are kept, and the
fields. -/
theorem filterRawHeaders_eq (raw : List Char) :
    filterRawHeaders raw =
      (keptAhead false ((lines raw).map withoutCr)).flatMap withCrlf := by
  rw [filterRawHeaders, foldl_filterLine, List.nil_append]

theorem mem_keptLines {stored : List Line} {line : Line}
    (member : line ∈ keptLines (fieldsOf stored)) :
    line ∈ stored ∧ line ≠ [] := by
  induction stored with
  | nil => cases member
  | cons next later inductionHypothesis =>
      have behind : line ∈ keptLines (fieldsOf later) → line ∈ next :: later ∧ line ≠ [] :=
        fun inside => ⟨List.mem_cons_of_mem _ (inductionHypothesis inside).1,
          (inductionHypothesis inside).2⟩
      cases starts : isContinuation next with
      | true =>
          rw [fieldsOf_continued starts] at member
          exact behind member
      | false =>
          cases named : fieldName next with
          | none =>
              rw [fieldsOf_stray named] at member
              exact behind member
          | some name =>
              rw [fieldsOf_field starts named, keptLines_cons] at member
              split_ifs at member
              · exact behind member
              · rcases List.mem_cons.mp member with rfl | inside
                · refine ⟨List.mem_cons_self, ?_⟩
                  rintro rfl
                  cases named
                · rcases List.mem_append.mp inside with folded | kept
                  · refine ⟨List.mem_cons_of_mem _ (List.takeWhile_subset _ folded), ?_⟩
                    rintro rfl
                    have blank := List.mem_takeWhile_imp folded
                    cases blank
                  · exact behind kept

/-- A text written line by line is read back line by line. -/
theorem lines_flatMap_withCrlf {all : List Line} (noLf : ∀ line ∈ all, '\n' ∉ line) :
    lines (all.flatMap withCrlf) = all := by
  induction all with
  | nil => rw [List.flatMap_nil, Text.lines_nil]
  | cons line later inductionHypothesis =>
      have first := noLf line List.mem_cons_self
      have rest := inductionHypothesis fun other member =>
        noLf other (List.mem_cons_of_mem _ member)
      rw [List.flatMap_cons, withCrlf, List.append_assoc]
      exact (lines_crlf_of_notMem first _).trans (congrArg (line :: ·) rest)

/-- The fields alone never end the block. -/
theorem notMem_lines_keptLines (raw : List Char) :
    [] ∉ lines ((keptLines (storedFields raw)).flatMap withCrlf) := by
  have noLf : ∀ line ∈ keptLines (storedFields raw), '\n' ∉ line := by
    intro line member
    obtain ⟨stored, found, rfl⟩ := List.mem_map.mp (mem_keptLines member).1
    intro inside
    exact notMem_of_mem_lines found ((List.rdropWhile_prefix _ stored).subset inside)
  rw [lines_flatMap_withCrlf noLf]
  exact fun empty => (mem_keptLines empty).2 rfl

/-- A stored text begins with a blank where its first line does. -/
theorem isContinuation_withoutCr (line : Line) :
    isContinuation (withoutCr line) = isContinuation line := by
  induction line using List.reverseRecOn with
  | nil => rfl
  | append_singleton line char inductionHypothesis =>
      by_cases cr : char = '\r'
      · rw [withoutCr, List.rdropWhile_concat_pos _ _ _ (by simpa using cr)]
        refine inductionHypothesis.trans ?_
        rw [cr]
        cases line with
        | nil => rfl
        | cons first rest => rfl
      · rw [withoutCr, List.rdropWhile_concat_neg _ _ _ (by simpa using cr)]

theorem isContinuation_lines (raw : List Char) :
    ((lines raw).map withoutCr).head?.any isContinuation = isContinuation raw := by
  rw [List.head?_map]
  cases raw with
  | nil => rw [Text.lines_nil]; rfl
  | cons char rest =>
      by_cases lf : char = '\n'
      · rw [lf, Text.lines_lf_cons]
        rfl
      by_cases crlf : ∃ later, char = '\r' ∧ rest = '\n' :: later
      · obtain ⟨later, rfl, rfl⟩ := crlf
        rw [Text.lines_crlf_cons]
        rfl
      · rw [Text.lines_cons_of lf fun later isCr same => crlf ⟨later, isCr, same⟩]
        cases lines rest with
        | nil => exact isContinuation_withoutCr [char]
        | cons line later => exact isContinuation_withoutCr (char :: line)

/-- The filter writes a header block of the stored fields unless the stored text
begins with a line that goes on with no field. -/
theorem isHeaderBlock_iff (raw : List Char) :
    IsHeaderBlock raw (filterRawHeaders raw) ↔ isContinuation raw = false := by
  have filtered : filterRawHeaders raw =
      (((lines raw).map withoutCr).takeWhile isContinuation).flatMap withCrlf ++
        (keptLines (storedFields raw)).flatMap withCrlf := by
    rw [filterRawHeaders_eq, keptAhead, if_neg Bool.false_ne_true, List.flatMap_append]
    rfl
  have block := notMem_lines_keptLines raw
  rw [IsHeaderBlock, filtered, ← isContinuation_lines]
  cases (lines raw).map withoutCr with
  | nil => exact iff_of_true ⟨rfl, block⟩ rfl
  | cons line later =>
      cases starts : isContinuation line with
      | true =>
          refine iff_of_false ?_ (by simp [starts])
          rintro ⟨same, -⟩
          rw [List.append_left_eq_self, List.takeWhile_cons, starts] at same
          simp [withCrlf] at same
      | false =>
          rw [List.takeWhile_cons, starts]
          exact iff_of_true ⟨rfl, block⟩ (by simp [starts])

end Export
end Mailcore

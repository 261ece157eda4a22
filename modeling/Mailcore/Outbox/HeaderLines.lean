import Mathlib.Data.List.TakeWhile
import Mailcore.Outbox.DateHeader
import Mailcore.Text.Slices

/-!
# The lines of a stored message

A message is cut into lines that keep their endings.  The header is what stands
in front of the first empty line; a line that begins with a space or a tab
belongs to the field before it.
-/

namespace Mailcore
namespace Outbox
namespace DateHeader

/-- The lines of a text, each with its line feed. -/
def chunks : Bytes → List Bytes
  | [] => []
  | byte :: rest =>
      if byte = lf then [lf] :: chunks rest
      else
        match chunks rest with
        | [] => [[byte]]
        | chunk :: later => (byte :: chunk) :: later

/-- A line with its line feed. -/
def IsLine (chunk : Bytes) : Prop :=
  ∃ content, lf ∉ content ∧ chunk = content ++ [lf]

/-- Lines, of which only the last may lack its line feed. -/
inductive Lined : List Bytes → Prop
  | nil : Lined []
  | tail (content : Bytes) (nonempty : content ≠ []) (missing : lf ∉ content) : Lined [content]
  | cons {chunk : Bytes} {later : List Bytes} (line : IsLine chunk) (rest : Lined later) :
      Lined (chunk :: later)

theorem chunks_line {content : Bytes} (missing : lf ∉ content) (rest : Bytes) :
    chunks (content ++ lf :: rest) = (content ++ [lf]) :: chunks rest := by
  induction content with
  | nil => rw [List.nil_append, chunks, if_pos rfl, List.nil_append]
  | cons byte content inductionHypothesis =>
      rw [List.mem_cons, not_or] at missing
      rw [List.cons_append, chunks, if_neg (Ne.symm missing.1), inductionHypothesis missing.2]
      rfl

theorem chunks_tail {content : Bytes} (nonempty : content ≠ []) (missing : lf ∉ content) :
    chunks content = [content] := by
  induction content with
  | nil => exact absurd rfl nonempty
  | cons byte content inductionHypothesis =>
      rw [List.mem_cons, not_or] at missing
      rw [chunks, if_neg (Ne.symm missing.1)]
      cases content with
      | nil => rfl
      | cons second content => rw [inductionHypothesis (List.cons_ne_nil _ _) missing.2]

/-- Lines put together are cut into the same lines. -/
theorem chunks_flatten {lines : List Bytes} (lined : Lined lines) :
    chunks lines.flatten = lines := by
  induction lined with
  | nil => rfl
  | tail content nonempty missing =>
      rw [List.flatten_cons, List.flatten_nil, List.append_nil]
      exact chunks_tail nonempty missing
  | cons line rest inductionHypothesis =>
      obtain ⟨content, missing, rfl⟩ := line
      rw [List.flatten_cons, List.append_assoc, List.singleton_append, chunks_line missing,
        inductionHypothesis]

theorem lined_chunks (raw : Bytes) : Lined (chunks raw) := by
  induction raw with
  | nil => exact .nil
  | cons byte rest inductionHypothesis =>
      rw [chunks]
      split_ifs with feed
      · exact .cons ⟨[], List.not_mem_nil, rfl⟩ inductionHypothesis
      · have apart : ∀ {content : Bytes}, lf ∉ content → lf ∉ byte :: content := by
          intro content missing
          rw [List.mem_cons, not_or]
          exact ⟨Ne.symm feed, missing⟩
        generalize chunks rest = cut at inductionHypothesis
        cases inductionHypothesis with
        | nil => exact .tail _ (List.cons_ne_nil _ _) (apart List.not_mem_nil)
        | tail content nonempty missing =>
            exact .tail _ (List.cons_ne_nil _ _) (apart missing)
        | cons line later =>
            obtain ⟨content, missing, rfl⟩ := line
            exact .cons ⟨byte :: content, apart missing, rfl⟩ later

@[simp] theorem flatten_chunks (raw : Bytes) : (chunks raw).flatten = raw := by
  induction raw with
  | nil => rfl
  | cons byte rest inductionHypothesis =>
      rw [chunks]
      split_ifs with feed
      · rw [List.flatten_cons, inductionHypothesis, feed]
        rfl
      · cases cut : chunks rest with
        | nil =>
            rw [cut] at inductionHypothesis
            rw [← inductionHypothesis]
            rfl
        | cons chunk later =>
            rw [cut] at inductionHypothesis
            rw [← inductionHypothesis]
            rfl

/-- Lines that all have their line feed may stand in front of any. -/
theorem Lined.append {first second : List Bytes} (lines : ∀ chunk ∈ first, IsLine chunk)
    (rest : Lined second) : Lined (first ++ second) := by
  induction first with
  | nil => exact rest
  | cons chunk first inductionHypothesis =>
      exact .cons (lines chunk List.mem_cons_self)
        (inductionHypothesis fun other member => lines other (List.mem_cons_of_mem _ member))

/-- In front of the last line all have their line feed. -/
theorem Lined.split {first second : List Bytes} (lined : Lined (first ++ second))
    (behind : second ≠ []) : (∀ chunk ∈ first, IsLine chunk) ∧ Lined second := by
  induction first with
  | nil => exact ⟨fun _ member => absurd member List.not_mem_nil, lined⟩
  | cons chunk first inductionHypothesis =>
      rw [List.cons_append] at lined
      generalize same : first ++ second = later at lined
      cases lined with
      | tail content nonempty missing =>
          exact absurd (List.append_eq_nil_iff.mp same).2 behind
      | cons line rest =>
          subst same
          obtain ⟨lines, last⟩ := inductionHypothesis rest
          exact ⟨List.forall_mem_cons.mpr ⟨line, lines⟩, last⟩

theorem Lined.sublist {lines part : List Bytes} (lined : Lined lines)
    (within : part.Sublist lines) : Lined part := by
  induction lined generalizing part with
  | nil =>
      rw [List.sublist_nil.mp within]
      exact .nil
  | tail content nonempty missing =>
      rcases List.sublist_singleton.mp within with rfl | rfl
      · exact .nil
      · exact .tail content nonempty missing
  | cons line rest inductionHypothesis =>
      cases within with
      | cons _ later => exact inductionHypothesis later
      | cons_cons _ later => exact .cons line (inductionHypothesis later)

/-! ## Header, body and fields -/

/-- An empty line. -/
def isBlank (chunk : Bytes) : Bool :=
  chunk = [lf] || chunk = [cr, lf]

def header (raw : Bytes) : List Bytes :=
  (chunks raw).takeWhile fun chunk => !isBlank chunk

/-- The empty line and what follows it. -/
def body (raw : Bytes) : Bytes :=
  ((chunks raw).dropWhile fun chunk => !isBlank chunk).flatten

/-- The fields of a header, each with the lines that continue it. -/
def fields : List Bytes → List (List Bytes)
  | [] => []
  | line :: later =>
      match later.head?, fields later with
      | some next, field :: others =>
          if isFolded next then (line :: field) :: others else [line] :: field :: others
      | _, others => [line] :: others

/-- A line opens a `Date` field. -/
def opensDate (line : Bytes) : Bool :=
  (line.take 5).map lowerAscii = ascii "date:"

def isDateField (field : List Bytes) : Bool :=
  field.head?.any opensDate

def dateFields (raw : Bytes) : List (List Bytes) :=
  (fields (header raw)).filter isDateField

def otherFields (raw : Bytes) : List (List Bytes) :=
  (fields (header raw)).filter fun field => !isDateField field

/-- A field is its first line and the folded ones behind it. -/
theorem fields_cons (line : Bytes) (later : List Bytes) :
    fields (line :: later) = (line :: later.takeWhile isFolded) ::
      fields (later.dropWhile isFolded) := by
  induction later generalizing line with
  | nil => rfl
  | cons next later inductionHypothesis =>
      rw [fields, List.head?_cons, inductionHypothesis next]
      cases folded : isFolded next with
      | true =>
          rw [List.takeWhile_cons_of_pos folded, List.dropWhile_cons_of_pos folded]
          simp [folded]
      | false =>
          rw [List.takeWhile_cons_of_neg (by simp [folded]),
            List.dropWhile_cons_of_neg (by simp [folded]), inductionHypothesis next]
          simp [folded]

/-- Fields end where a line is not folded. -/
theorem fields_append (before : List Bytes) {line : Bytes} (plain : isFolded line = false)
    (later : List Bytes) :
    fields (before ++ line :: later) = fields before ++ fields (line :: later) := by
  induction hlength : before.length using Nat.strong_induction_on generalizing before with
  | _ length inductionHypothesis =>
    cases before with
    | nil => rfl
    | cons first before =>
        have stops : Text.Stops isFolded (line :: later) := Text.stops_cons.mpr plain
        rw [List.cons_append, fields_cons, fields_cons, Text.takeWhile_append_stops before stops,
          Text.dropWhile_append_stops before stops, List.cons_append]
        refine congrArg _ (inductionHypothesis _ ?_ (before.dropWhile isFolded) rfl)
        rw [← hlength, List.length_cons]
        exact Nat.lt_succ_of_le (List.dropWhile_sublist _).length_le

end DateHeader
end Outbox
end Mailcore

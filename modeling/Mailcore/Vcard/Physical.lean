import Mailcore.Vcard.Escapes

/-!
# The physical lines of a value

An encoding after unfolding: the lines its soft line breaks cut it into. Joining
them puts the pieces together again.
-/

namespace Mailcore
namespace Vcard

open Content (Flush flush_cons isBlank lineEnd unfold)
open Html (trimEnd)
open Text (Unbroken lines)

/-- How a piece or a soft line break stands in the unfolded text. -/
def keptWritten : Option Piece → List Char
  | none => ['=', '\n']
  | some piece => piece.written

/-- The physical lines of a value, the first one with a text in front. -/
def physical : List Char → List (Option Piece) → List (List Char)
  | front, [] => [front]
  | front, none :: later => (front ++ ['=']) :: physical [] later
  | front, some piece :: later => physical (front ++ piece.written) later

theorem unbroken_append {first second : List Char} (one : Unbroken first)
    (two : Unbroken second) : Unbroken (first ++ second) := by
  refine ⟨fun lf => ?_, fun cr => ?_⟩
  · exact (List.mem_append.mp lf).elim one.1 two.1
  · exact (List.mem_append.mp cr).elim one.2 two.2

theorem unbroken_singleton {char : Char} (plain : isPrintable char ∨ isBlank char) :
    Unbroken [char] := by
  rcases plain with printable | blank
  · simp only [isPrintable, Bool.and_eq_true, decide_eq_true_eq] at printable
    have code := printable.1.1
    refine ⟨fun lf => ?_, fun cr => ?_⟩
    · rw [← List.mem_singleton.mp lf] at code
      exact absurd code (by decide)
    · rw [← List.mem_singleton.mp cr] at code
      exact absurd code (by decide)
  · rcases Content.eq_of_isBlank blank with rfl | rfl <;> decide

theorem unbroken_escape (byte : UInt8) (upperHigh upperLow : Bool) :
    Unbroken (escape byte upperHigh upperLow) := by
  have all : ∀ byte : UInt8, ∀ upperHigh upperLow : Bool,
      Unbroken (escape byte upperHigh upperLow) := forall_byte _ (by decide +kernel)
  exact all byte upperHigh upperLow

theorem unbroken_written {piece : Piece} (ok : piece.Ok) : Unbroken piece.written := by
  cases piece with
  | literal char => exact unbroken_singleton ok
  | escaped byte upperHigh upperLow => exact unbroken_escape byte upperHigh upperLow
  | stray blank =>
      have plain : Unbroken ['='] := by decide
      exact plain

/-- The tokens behind a soft line break that do not begin with a blank. -/
theorem flush_of_solid {later : List Token} (solid : Solid later) {rest : List Char}
    (flush : Flush rest) : Flush (later.flatMap Token.written ++ rest) := by
  cases later with
  | nil => exact flush
  | cons token later =>
      rw [List.flatMap_cons, List.append_assoc]
      cases token with
      | literal char => exact flush_cons.mpr (solid char later rfl)
      | escaped byte upperHigh upperLow =>
          have equals : isBlank '=' = false := by decide
          exact flush_cons.mpr equals
      | soft crlf =>
          have equals : isBlank '=' = false := by decide
          exact flush_cons.mpr equals

/-- Unfolding leaves the merged pieces. -/
theorem unfold_tokens {tokens : List Token}
    (plain : ∀ char, .literal char ∈ tokens → isPrintable char ∨ isBlank char)
    {rest : List Char} (flush : Flush rest) :
    unfold (tokens.flatMap Token.written ++ rest) =
      (merged tokens).flatMap keptWritten ++ unfold rest := by
  have equals : Unbroken ['='] := by decide
  induction tokens using tokens_induction with
  | nil => rfl
  | literal char later inductionHypothesis =>
      have behind := inductionHypothesis fun other member =>
        plain other (List.mem_cons_of_mem _ member)
      rw [List.flatMap_cons, List.append_assoc,
        Token.written, Content.unfold_append (unbroken_singleton (plain char List.mem_cons_self)),
        behind]
      rfl
  | escaped byte upperHigh upperLow later inductionHypothesis =>
      have behind := inductionHypothesis fun other member =>
        plain other (List.mem_cons_of_mem _ member)
      rw [List.flatMap_cons, List.append_assoc, Token.written,
        Content.unfold_append (unbroken_escape byte upperHigh upperLow), behind]
      rfl
  | stray crlf char later blank inductionHypothesis =>
      have behind := inductionHypothesis fun other member =>
        plain other (List.mem_cons_of_mem _ (List.mem_cons_of_mem _ member))
      rw [List.flatMap_cons, List.flatMap_cons, Token.written, Token.written, merged_stray blank]
      change unfold (['='] ++ (lineEnd crlf ++ _) ++ rest) = _
      rw [List.append_assoc, List.append_assoc, Content.unfold_append equals]
      change ['='] ++ unfold (lineEnd crlf ++ char :: (later.flatMap Token.written ++ rest)) = _
      rw [Content.unfold_blank blank, behind]
      rfl
  | soft crlf later solid inductionHypothesis =>
      have behind := inductionHypothesis fun other member =>
        plain other (List.mem_cons_of_mem _ member)
      rw [List.flatMap_cons, Token.written, merged_soft solid]
      change unfold (['='] ++ (lineEnd crlf ++ _) ++ rest) = _
      rw [List.append_assoc, List.append_assoc, Content.unfold_append equals,
        Content.unfold_lineEnd (flush_of_solid solid flush), behind]
      rfl

/-- The lines of the merged pieces. -/
theorem lines_physical {all : List (Option Piece)} {front : List Char}
    (ok : ∀ piece, some piece ∈ all → piece.Ok) (unbroken : Unbroken front) (rest : List Char) :
    lines (front ++ (all.flatMap keptWritten ++ '\n' :: rest)) =
      physical front all ++ lines rest := by
  induction all generalizing front with
  | nil => exact Text.lines_lf unbroken rest
  | cons item all inductionHypothesis =>
      have later : ∀ piece, some piece ∈ all → piece.Ok := fun piece member =>
        ok piece (List.mem_cons_of_mem _ member)
      cases item with
      | none =>
          have equals : Unbroken ['='] := by decide
          have empty : Unbroken [] := by decide
          have behind := inductionHypothesis later empty
          rw [List.nil_append] at behind
          rw [List.flatMap_cons, physical, List.cons_append, ← behind,
            ← Text.lines_lf (unbroken_append unbroken equals)]
          simp [keptWritten]
      | some piece =>
          have written := unbroken_written (ok piece List.mem_cons_self)
          rw [List.flatMap_cons, physical,
            ← inductionHypothesis later (unbroken_append unbroken written)]
          simp [keptWritten]

/-! ## Line ends -/

/-- A line that ends in no whitespace. -/
def Bare (line : List Char) : Prop :=
  ∀ char ∈ line.getLast?, Outbox.isWhitespace char = false

theorem trimEnd_of_bare {line : List Char} (bare : Bare line) : trimEnd line = line :=
  Text.rdropWhile_of_bare bare

theorem bare_append {line : List Char} (bare : Bare line) (nonempty : line ≠ [])
    (front : List Char) : Bare (front ++ line) := by
  intro char last
  rw [List.getLast?_append_of_ne_nil _ nonempty] at last
  exact bare char last

theorem bare_nil : Bare [] := by
  intro char last
  cases last

theorem bare_singleton {char : Char} (solid : Outbox.isWhitespace char = false) :
    Bare [char] := by
  intro other last
  rwa [← Option.some.inj last]

theorem isWhitespace_of_isPrintable {char : Char} (printable : isPrintable char) :
    Outbox.isWhitespace char = false := by
  simp only [isPrintable, Bool.and_eq_true, decide_eq_true_eq] at printable
  simp only [Outbox.isWhitespace, Bool.or_eq_false_iff, Bool.and_eq_false_iff,
    decide_eq_false_iff_not]
  omega

theorem bare_escape (byte : UInt8) (upperHigh upperLow : Bool) :
    Bare (escape byte upperHigh upperLow) := by
  have all : ∀ byte : UInt8, ∀ upperHigh upperLow : Bool,
      Outbox.isWhitespace (hexDigit upperLow (byte.toNat % 16)) = false :=
    forall_byte _ (by decide +kernel)
  exact bare_append (bare_singleton (all byte upperHigh upperLow)) (List.cons_ne_nil _ _)
    ['=', hexDigit upperHigh (byte.toNat / 16)]

/-- The last character of a value is no blank that stands for itself. -/
def EndsSolid (all : List (Option Piece)) : Prop :=
  ∀ char, all.getLast? = some (some (.literal char)) → isBlank char = false

theorem EndsSolid.of_cons {item : Option Piece} {all : List (Option Piece)}
    (solid : EndsSolid (item :: all)) : EndsSolid all := by
  intro char last
  refine solid char ?_
  cases all with
  | nil => cases last
  | cons next all => rw [List.getLast?_cons_cons, last]

theorem EndsSolid.cons {item : Option Piece} {all : List (Option Piece)}
    (solid : EndsSolid all)
    (alone : all = [] → ∀ char, item = some (.literal char) → isBlank char = false) :
    EndsSolid (item :: all) := by
  intro char last
  cases all with
  | nil => exact alone rfl char (Option.some.inj last)
  | cons next all =>
      rw [List.getLast?_cons_cons] at last
      exact solid char last

theorem merged_eq_nil {tokens : List Token} (empty : merged tokens = []) : tokens = [] := by
  induction tokens using tokens_induction with
  | nil => rfl
  | literal char later _ => cases empty
  | escaped byte upperHigh upperLow later _ => cases empty
  | stray crlf char later blank _ =>
      rw [merged_stray blank] at empty
      cases empty
  | soft crlf later solid _ =>
      rw [merged_soft solid] at empty
      cases empty

theorem last_of_cons {token : Token} {later : List Token}
    (solid : ∀ char, (token :: later).getLast? = some (.literal char) → isBlank char = false)
    (char : Char) (last : later.getLast? = some (.literal char)) : isBlank char = false := by
  refine solid char ?_
  cases later with
  | nil => cases last
  | cons next later => rw [List.getLast?_cons_cons, last]

theorem endsSolid_merged {tokens : List Token}
    (solid : ∀ char, tokens.getLast? = some (.literal char) → isBlank char = false) :
    EndsSolid (merged tokens) := by
  induction tokens using tokens_induction with
  | nil =>
      intro char last
      cases last
  | literal char later inductionHypothesis =>
      refine (inductionHypothesis (last_of_cons solid)).cons ?_
      rintro empty other ⟨⟩
      rw [merged_eq_nil empty] at solid
      exact solid char rfl
  | escaped byte upperHigh upperLow later inductionHypothesis =>
      refine (inductionHypothesis (last_of_cons solid)).cons ?_
      rintro _ other ⟨⟩
  | stray crlf char later blank inductionHypothesis =>
      rw [merged_stray blank]
      refine (inductionHypothesis (last_of_cons (last_of_cons solid))).cons ?_
      rintro _ other ⟨⟩
  | soft crlf later flush inductionHypothesis =>
      rw [merged_soft flush]
      refine (inductionHypothesis (last_of_cons solid)).cons ?_
      rintro _ other ⟨⟩

theorem bare_written {piece : Piece} (ok : piece.Ok) (solid : EndsSolid [some piece]) :
    Bare piece.written ∧ piece.written ≠ [] := by
  cases piece with
  | literal char =>
      rcases ok with printable | blank
      · exact ⟨bare_singleton (isWhitespace_of_isPrintable printable), List.cons_ne_nil _ _⟩
      · rw [solid char rfl] at blank
        cases blank
  | escaped byte upperHigh upperLow =>
      exact ⟨bare_escape byte upperHigh upperLow, List.cons_ne_nil _ _⟩
  | stray blank =>
      have equals : Outbox.isWhitespace '=' = false := by decide
      exact ⟨bare_singleton equals, List.cons_ne_nil _ _⟩

/-- No physical line of a value ends in whitespace. -/
theorem bare_physical {all : List (Option Piece)} {front : List Char}
    (ok : ∀ piece, some piece ∈ all → piece.Ok) (solid : EndsSolid all)
    (bare : all = [] → Bare front) : ∀ line ∈ physical front all, Bare line := by
  induction all generalizing front with
  | nil =>
      intro line member
      rw [List.mem_singleton.mp member]
      exact bare rfl
  | cons item all inductionHypothesis =>
      have later : ∀ piece, some piece ∈ all → piece.Ok := fun piece member =>
        ok piece (List.mem_cons_of_mem _ member)
      cases item with
      | none =>
          have equals : Outbox.isWhitespace '=' = false := by decide
          rw [physical, List.forall_mem_cons]
          exact ⟨bare_append (bare_singleton equals) (List.cons_ne_nil _ _) _,
            inductionHypothesis later solid.of_cons fun _ => bare_nil⟩
      | some piece =>
          rw [physical]
          refine inductionHypothesis later solid.of_cons fun empty => ?_
          subst empty
          obtain ⟨ends, nonempty⟩ := bare_written (ok piece List.mem_cons_self) solid
          exact bare_append ends nonempty _

/-! ## Joining the lines -/

theorem physical_append (front middle : List Char) (all : List (Option Piece)) :
    physical (front ++ middle) all = (physical middle all).modifyHead (front ++ ·) := by
  induction all generalizing middle with
  | nil => rfl
  | cons item all inductionHypothesis =>
      cases item with
      | none => simp [physical]
      | some piece => rw [physical, physical, List.append_assoc, inductionHypothesis]

theorem physical_ne_nil (front : List Char) (all : List (Option Piece)) :
    physical front all ≠ [] := by
  induction all generalizing front with
  | nil => exact List.cons_ne_nil _ _
  | cons item all inductionHypothesis =>
      cases item with
      | none => exact List.cons_ne_nil _ _
      | some piece => exact inductionHypothesis _

/-- Joining the lines of a value leaves its pieces. -/
theorem joinSoft_physical {all : List (Option Piece)} {front first : List Char}
    {more : List (List Char)} (shape : physical front all = first :: more)
    (bare : ∀ line ∈ more, Bare line) (rest : List (List Char)) :
    joinSoft first (more ++ rest) =
      joinSoft (front ++ (all.filterMap id).flatMap Piece.written) rest := by
  induction all generalizing front first more with
  | nil =>
      obtain ⟨rfl, rfl⟩ := List.cons.inj shape
      simp
  | cons item all inductionHypothesis =>
      cases item with
      | none =>
          obtain ⟨rfl, rfl⟩ := List.cons.inj shape
          obtain ⟨next, later, cut⟩ := List.exists_cons_of_ne_nil (physical_ne_nil [] all)
          rw [cut, List.forall_mem_cons] at bare
          have whole : physical front all = (front ++ next) :: later := by
            have moved := physical_append front [] all
            rwa [List.append_nil, cut] at moved
          have joins : (front ++ ['=']).getLast? = some '=' := by simp
          rw [cut, List.cons_append, joinSoft, if_pos joins, List.dropLast_concat,
            trimEnd_of_bare bare.1, inductionHypothesis whole bare.2, List.filterMap_cons_none rfl]
      | some piece =>
          rw [physical] at shape
          rw [inductionHypothesis shape bare, List.append_assoc]
          rfl

end Vcard
end Mailcore

import Mailcore.Html.Sanitize
import Mailcore.Markup.Tokens

/-!
# Serialised marks

How HTML reads what the sanitizer writes: each mark comes back as its own token,
and neighbouring texts as one.
-/

namespace Mailcore
namespace Html

open Markup
open Text (asciiLower)

/-- A tag name that reads back as itself. -/
def safeName (name : List Char) : Bool :=
  (name.head?.any Char.isAlpha) && name.all Char.isAlphanum &&
    asciiLower name == name && !isRawName name

/-- An attribute name that reads back as itself. -/
def safeKey (key : List Char) : Bool :=
  key ≠ [] && key.all isNameChar

/-- A mark whose names read back as themselves. -/
def Mark.Safe : Mark → Prop
  | .text _ => True
  | .opening name attrs _ => safeName name ∧ ∀ given ∈ attrs, safeKey given.1
  | .closing name => safeName name

/-! ## Letters -/

theorem isNameChar_plain {char : Char} (letter : isNameChar char) :
    char ≠ '>' ∧ isSpace char = false ∧ char ≠ '/' ∧ char ≠ '=' ∧ char ≠ '"' := by
  have away : ['>', ' ', '\t', '\n', '\r', '\u000c', '/', '=', '"'].all
      (fun other => !isNameChar other) := by decide
  have differs : ∀ other ∈ ['>', ' ', '\t', '\n', '\r', '\u000c', '/', '=', '"'],
      char ≠ other := by
    rintro other member rfl
    have absent := List.all_eq_true.mp away char member
    rw [letter] at absent
    cases absent
  refine ⟨differs _ (by decide), ?_, differs _ (by decide), differs _ (by decide),
    differs _ (by decide)⟩
  unfold isSpace
  rw [List.contains_eq_any_beq, List.any_eq_false]
  intro other member
  rw [beq_iff_eq]
  exact differs other (List.mem_cons_of_mem _ (List.mem_append_left ['/', '=', '"'] member))

theorem isNameChar_of_isAlphanum {char : Char} (letter : char.isAlphanum) :
    isNameChar char := by
  unfold isNameChar
  rw [letter]
  rfl

theorem quote_notMem_escapeAttr (value : List Char) : '"' ∉ escapeAttr value := by
  unfold escapeAttr
  rw [List.mem_flatMap]
  rintro ⟨char, -, inside⟩
  unfold escapeAttrChar at inside
  split at inside
  all_goals try exact absurd inside (by decide)
  next char _ notQuote _ _ =>
    exact notQuote (List.mem_singleton.mp inside).symm

theorem lt_notMem_escapeText (text : List Char) : '<' ∉ escapeText text := by
  unfold escapeText
  rw [List.mem_flatMap]
  rintro ⟨char, -, inside⟩
  unfold escapeTextChar at inside
  split at inside
  all_goals try exact absurd inside (by decide)
  next char _ notLt _ =>
    exact notLt (List.mem_singleton.mp inside).symm

/-! ## Tags -/

/-- Reading on through what changes nothing. -/
theorem tagEnd_run
    {within : Within} {run : List Char}
    (stays : ∀ char ∈ run, within.next char = some within) (rest : List Char) :
    tagEnd within (run ++ rest) = tagEnd within rest := by
  induction run with
  | nil => rfl
  | cons char run inductionHypothesis =>
      rw [List.cons_append, tagEnd, stays char List.mem_cons_self]
      exact inductionHypothesis fun other member =>
        stays other (List.mem_cons_of_mem _ member)

/-- The name of an attribute is read up to the `=`. -/
theorem attrName_stays {key : List Char} (safe : safeKey key) :
    ∃ first tail, key = first :: tail ∧ Within.gap.next first = some .attrName ∧
      ∀ char ∈ tail, Within.attrName.next char = some .attrName := by
  unfold safeKey at safe
  rw [Bool.and_eq_true, decide_eq_true_eq, List.all_eq_true] at safe
  obtain ⟨nonempty, letters⟩ := safe
  obtain ⟨first, tail, rfl⟩ := List.exists_cons_of_ne_nil nonempty
  refine ⟨first, tail, rfl, ?_, fun char member => ?_⟩
  · have plain := isNameChar_plain (letters first List.mem_cons_self)
    rw [Within.next, gapNext, if_neg plain.1, if_neg (by simp [plain.2.1]),
      if_neg plain.2.2.1]
  · have plain := isNameChar_plain (letters char (List.mem_cons_of_mem _ member))
    rw [Within.next, if_neg plain.1, if_neg (by simp [plain.2.1]), if_neg plain.2.2.1,
      if_neg plain.2.2.2.1]

theorem quoted_stays {value : List Char} (plain : '"' ∉ value) :
    ∀ char ∈ value, (Within.quoted '"').next char = some (.quoted '"') := by
  intro char member
  rw [Within.next, if_neg]
  rintro rfl
  exact plain member

/-- An attribute is read to its end. -/
theorem tagEnd_quoted
    {within : Within} (enters : within.next ' ' = some .gap)
    {key value : List Char} (safe : safeKey key) (plain : '"' ∉ value)
    (rest : List Char) :
    tagEnd within (' ' :: (key ++ '=' :: '"' :: (value ++ '"' :: rest))) =
      tagEnd .gap rest := by
  obtain ⟨first, tail, rfl, begins, stays⟩ := attrName_stays safe
  rw [tagEnd, enters]
  simp only
  rw [List.cons_append, tagEnd, begins]
  simp only
  rw [tagEnd_run stays]
  change tagEnd (.quoted '"') (value ++ '"' :: rest) = _
  rw [tagEnd_run (quoted_stays plain)]
  rfl

theorem tagEnd_attrHtml
    {within : Within} (between : within = .name ∨ within = .gap)
    {given : Attr} (safe : safeKey given.1) (rest : List Char) :
    tagEnd within (attrHtml given ++ rest) = tagEnd .gap rest := by
  have enters : within.next ' ' = some .gap := by
    rcases between with rfl | rfl <;> rfl
  have read := tagEnd_quoted enters safe (quote_notMem_escapeAttr given.2) rest
  unfold attrHtml
  simpa only [List.cons_append, List.append_assoc, List.nil_append] using read

/-- All attributes are read, and the tag ends behind them. -/
theorem tagEnd_attrsHtml
    {within : Within} (between : within = .name ∨ within = .gap)
    {attrs : List Attr} (safe : ∀ given ∈ attrs, safeKey given.1)
    (selfClosing : Bool) (rest : List Char) :
    tagEnd within (attrsHtml attrs ++
      ((if selfClosing then ['/', '>'] else ['>']) ++ rest)) =
        some (selfClosing, rest) := by
  induction attrs generalizing within with
  | nil => rcases between with rfl | rfl <;> cases selfClosing <;> rfl
  | cons given attrs inductionHypothesis =>
      rw [attrsHtml, List.flatMap_cons, List.append_assoc,
        tagEnd_attrHtml between (safe given List.mem_cons_self)]
      exact inductionHypothesis (.inr rfl) fun other member =>
        safe other (List.mem_cons_of_mem _ member)

/-- What ends the name of a tag. -/
def EndsName (rest : List Char) : Prop :=
  ∃ char behind, rest = char :: behind ∧ (isSpace char ∨ char = '/' ∨ char = '>')

theorem safeName_chars {name : List Char} (safe : safeName name) :
    (∃ first tail, name = first :: tail ∧ first.isAlpha) ∧
      (∀ char ∈ name, isNameChar char) ∧ asciiLower name = name ∧
        isRawName name = false := by
  unfold safeName at safe
  simp only [Bool.and_eq_true, beq_iff_eq, Bool.not_eq_true'] at safe
  obtain ⟨⟨⟨first, letters⟩, lower⟩, cooked⟩ := safe
  refine ⟨?_, ?_, lower, cooked⟩
  · cases name with
    | nil => cases first
    | cons char name => exact ⟨char, name, rfl, first⟩
  · intro char member
    exact isNameChar_of_isAlphanum (List.all_eq_true.mp letters char member)

theorem tagName_append
    {name rest : List Char} (safe : safeName name) (ends : EndsName rest) :
    tagName (name ++ rest) = name := by
  obtain ⟨-, letters, lower, -⟩ := safeName_chars safe
  obtain ⟨char, behind, rfl, ends⟩ := ends
  have whole : (name ++ char :: behind).takeWhile
      (fun char => !isSpace char && char != '/' && char != '>') = name := by
    refine Text.takeWhile_append_of_stops (fun letter member => ?_)
      (Text.stops_cons.mpr ?_)
    · have plain := isNameChar_plain (letters letter member)
      simp [plain.1, plain.2.1, plain.2.2.1]
    · rcases ends with space | rfl | rfl
      · simp [space]
      · decide
      · decide
  rw [tagName, whole, lower]

/-- A letter that begins a name opens a start tag. -/
theorem markup_letter {first : Char} (letter : first.isAlpha) (rest : List Char) :
    markup (first :: rest) = some (tagAt .start (first :: rest)) := by
  have away : ∀ other ∈ ['!', '?', '/'], first ≠ other := by
    rintro other member rfl
    have none_ : ['!', '?', '/'].all (fun other => !other.isAlpha) := by decide
    have absent := List.all_eq_true.mp none_ first member
    rw [letter] at absent
    cases absent
  have bang := away '!' (by decide)
  have question := away '?' (by decide)
  have slash := away '/' (by decide)
  unfold markup
  split
  · next same => exact absurd (List.cons.inj same).1 bang
  · next same => exact absurd (List.cons.inj same).1 bang
  · next same => exact absurd (List.cons.inj same).1 question
  · next same => exact absurd (List.cons.inj same).1 slash
  · next same =>
    obtain ⟨rfl, rfl⟩ := List.cons.inj same
    rw [if_pos letter]
  · next same => cases same

theorem tagEnd_name {name : List Char} (safe : safeName name) (rest : List Char) :
    tagEnd .name (name ++ rest) = tagEnd .name rest := by
  refine tagEnd_run (fun char member => ?_) rest
  have plain := isNameChar_plain ((safeName_chars safe).2.1 char member)
  rw [Within.next, if_neg plain.1, if_neg (by simp [plain.2.1]), if_neg plain.2.2.1]

theorem endsName_attrsHtml (attrs : List Attr) (selfClosing : Bool) (rest : List Char) :
    EndsName (attrsHtml attrs ++
      ((if selfClosing then ['/', '>'] else ['>']) ++ rest)) := by
  cases attrs with
  | nil =>
      cases selfClosing
      · exact ⟨'>', rest, rfl, .inr (.inr rfl)⟩
      · exact ⟨'/', '>' :: rest, rfl, .inr (.inl rfl)⟩
  | cons given attrs => exact ⟨' ', _, rfl, .inl rfl⟩

/-- An opening mark is read as its start tag. -/
theorem tokens_opening
    {name : List Char} {attrs : List Attr} (safe : safeName name)
    (safeAttrs : ∀ given ∈ attrs, safeKey given.1)
    (selfClosing : Bool) (rest : List Char) :
    tokens ((Mark.opening name attrs selfClosing).html ++ rest) =
      .start name selfClosing :: tokens rest := by
  obtain ⟨⟨first, tail, begins, letter⟩, -, -, cooked⟩ := safeName_chars safe
  have found : markup (name ++ (attrsHtml attrs ++
      ((if selfClosing then ['/', '>'] else ['>']) ++ rest))) =
        some (.start name selfClosing, rest) := by
    have opens : ∀ behind, markup (name ++ behind) =
        some (tagAt .start (name ++ behind)) := by
      intro behind
      rw [begins]
      exact markup_letter letter _
    rw [opens, tagAt, tagEnd_name safe, tagEnd_attrsHtml (.inl rfl) safeAttrs,
      tagName_append safe (endsName_attrsHtml attrs selfClosing rest)]
  unfold Mark.html
  simp only [List.cons_append, List.append_assoc]
  rw [tokens_lt_markup found, rawBehind, cooked]
  rfl

theorem markup_closing {name : List Char} (safe : safeName name) (rest : List Char) :
    markup ('/' :: (name ++ '>' :: rest)) = some (.stop name, rest) := by
  obtain ⟨⟨first, tail, begins, letter⟩, -, -, -⟩ := safeName_chars safe
  have closes : ∀ behind, markup ('/' :: (name ++ behind)) =
      some (tagAt (fun name _ => .stop name) (name ++ behind)) := by
    intro behind
    rw [begins, List.cons_append, markup, if_pos letter]
  have ends : tagEnd .name ('>' :: rest) = some (false, rest) := rfl
  rw [closes, tagAt, tagEnd_name safe, ends,
    tagName_append safe ⟨'>', rest, rfl, .inr (.inr rfl)⟩]

/-- A closing mark is read as its end tag. -/
theorem tokens_closing {name : List Char} (safe : safeName name) (rest : List Char) :
    tokens ((Mark.closing name).html ++ rest) = .stop name :: tokens rest := by
  unfold Mark.html
  simp only [List.cons_append, List.append_assoc, List.nil_append]
  rw [tokens_lt_markup (markup_closing safe rest)]
  rfl

/-! ## Texts -/

/-- A text as a token, unless it is empty. -/
def textTokens (run : List Char) : List Token :=
  if run = [] then [] else [.text run]

theorem tokens_run
    {run tail : List Char} (plain : '<' ∉ run)
    (stops : ∀ char ∈ tail.head?, char = '<') :
    tokens (run ++ tail) = textTokens run ++ tokens tail := by
  unfold textTokens
  by_cases empty : run = []
  · rw [if_pos empty, empty]
    rfl
  · rw [if_neg empty, tokens_text empty plain stops]
    rfl

/-- Escaped text is read together with the text behind it. -/
theorem tokens_escapeText (text rest : List Char) :
    ∃ run tail, tokens rest = textTokens run ++ tokens tail ∧
      tokens (escapeText text ++ rest) =
        textTokens (escapeText text ++ run) ++ tokens tail := by
  obtain ⟨run, tail, rfl, plain, stops⟩ : ∃ run tail, rest = run ++ tail ∧
      '<' ∉ run ∧ ∀ char ∈ tail.head?, char = '<' := by
    refine ⟨rest.takeWhile (· != '<'), rest.dropWhile (· != '<'),
      (List.takeWhile_append_dropWhile ..).symm, fun member => ?_, fun char first => ?_⟩
    · have differs := List.all_eq_true.mp List.all_takeWhile _ member
      simp at differs
    · have ends := Text.stops_dropWhile (· != '<') rest char first
      simpa using ends
  refine ⟨run, tail, tokens_run plain stops, ?_⟩
  rw [← List.append_assoc]
  refine tokens_run ?_ stops
  rw [List.mem_append]
  rintro (inText | inRun)
  · exact lt_notMem_escapeText text inText
  · exact plain inRun

end Html
end Mailcore

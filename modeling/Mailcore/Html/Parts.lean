import Mailcore.Html.Marks
import Mailcore.Html.Tags
import Mailcore.Markup.Tokens

/-!
# The parts of sanitizer output

Texts, opening and closing tags as they are written.  The reader's scanner and
HTML find the same tags in them.
-/

namespace Mailcore
namespace Html

open Markup
open Text (asciiLower)

/-! ## Parts -/

/-- An opening tag with its values as they are written, and a slash with the
attributes that stand behind it. -/
structure OpenTag where
  name : List Char
  attrs : List Attribute
  late : Option (List Attribute)
  deriving DecidableEq, Repr

def attrsText (attrs : List Attribute) : List Char :=
  attrs.flatMap fun given => spelled given.1 given.2

def lateText : Option (List Attribute) → List Char
  | none => []
  | some late => '/' :: attrsText late

/-- The attribute text of a tag. -/
def OpenTag.text (tag : OpenTag) : List Char :=
  attrsText tag.attrs ++ lateText tag.late

/-- A tag has no attributes behind its slash. -/
def OpenTag.Tight (tag : OpenTag) : Prop :=
  tag.late = none ∨ tag.late = some []

inductive Part
  | text (chars : List Char)
  | opening (tag : OpenTag)
  | closing (name : List Char)
  deriving DecidableEq, Repr

def Part.html : Part → List Char
  | .text chars => chars
  | .opening tag => '<' :: (tag.name ++ (tag.text ++ ['>']))
  | .closing name => '<' :: '/' :: (name ++ ['>'])

def partsHtml (parts : List Part) : List Char :=
  parts.flatMap Part.html

/-- A value that ends neither itself nor the tag. -/
def CleanValue (value : List Char) : Prop :=
  '"' ∉ value ∧ '<' ∉ value ∧ '>' ∉ value

def CleanAttrs (attrs : List Attribute) : Prop :=
  ∀ given ∈ attrs, safeKey given.1 ∧ CleanValue given.2

structure OpenTag.Clean (tag : OpenTag) : Prop where
  name : safeName tag.name
  attrs : CleanAttrs tag.attrs
  late : ∀ late ∈ tag.late, CleanAttrs late

def Part.Clean : Part → Prop
  | .text chars => '<' ∉ chars
  | .opening tag => tag.Clean
  | .closing name => safeName name

theorem quote_notMem_lateText {tag : OpenTag} (tight : tag.Tight) :
    '"' ∉ lateText tag.late := by
  rcases tight with none_ | empty
  · simp [none_, lateText]
  · simp [empty, lateText, attrsText]

theorem partsHtml_cons (part : Part) (parts : List Part) :
    partsHtml (part :: parts) = part.html ++ partsHtml parts :=
  List.flatMap_cons

/-! ## Marks -/

def escapedAttr (given : Attr) : Attribute :=
  (given.1, escapeAttr given.2)

/-- A mark as it is written. -/
def Mark.part : Mark → Part
  | .text chars => .text (escapeText chars)
  | .opening name attrs selfClosing =>
      .opening ⟨name, attrs.map escapedAttr, if selfClosing then some [] else none⟩
  | .closing name => .closing name

theorem attrsText_map (attrs : List Attr) :
    attrsText (attrs.map escapedAttr) = attrsHtml attrs := by
  unfold attrsText attrsHtml
  rw [List.flatMap_map]
  refine List.flatMap_congr fun given _ => ?_
  simp [spelled, needle, escapedAttr, attrHtml]

theorem Mark.html_part (mark : Mark) : mark.part.html = mark.html := by
  cases mark with
  | text chars => rfl
  | opening name attrs selfClosing =>
      simp only [Mark.part, Part.html, OpenTag.text, attrsText_map, Mark.html]
      cases selfClosing <;> simp [lateText, attrsText]
  | closing name => rfl

theorem marksHtml_eq (marks : List Mark) :
    marksHtml marks = partsHtml (marks.map Mark.part) := by
  unfold marksHtml partsHtml
  rw [List.flatMap_map]
  exact List.flatMap_congr fun mark _ => mark.html_part.symm

theorem cleanValue_escapeAttr (value : List Char) : CleanValue (escapeAttr value) := by
  refine ⟨quote_notMem_escapeAttr value, ?_, ?_⟩
  all_goals
    unfold escapeAttr
    rw [List.mem_flatMap]
    rintro ⟨char, -, inside⟩
    unfold escapeAttrChar at inside
    split at inside
    all_goals first
      | exact absurd inside (by decide)
      | rw [List.mem_singleton] at inside
        subst inside
        contradiction

theorem Mark.tight_part {mark : Mark} {tag : OpenTag} (opens : mark.part = .opening tag) :
    tag.Tight := by
  cases mark with
  | text chars => cases opens
  | opening name attrs selfClosing =>
      obtain rfl := Part.opening.inj opens
      cases selfClosing
      · exact .inl rfl
      · exact .inr rfl
  | closing name => cases opens

theorem Mark.clean_part {mark : Mark} (safe : mark.Safe) : mark.part.Clean := by
  cases mark with
  | text chars => exact lt_notMem_escapeText chars
  | opening name attrs selfClosing =>
      refine ⟨safe.1, fun given member => ?_, fun late member => ?_⟩
      · obtain ⟨before, inside, rfl⟩ := List.mem_map.mp member
        exact ⟨safe.2 before inside, cleanValue_escapeAttr before.2⟩
      · cases selfClosing with
        | false => cases member
        | true =>
            obtain rfl := Option.some.inj member
            simp [CleanAttrs]
  | closing name => exact safe

/-! ## The reader's scanner -/

theorem mem_attrsText {char : Char} {attrs : List Attribute} :
    char ∈ attrsText attrs ↔
      ∃ given ∈ attrs, char ∈ [' ', '=', '"'] ∨ char ∈ given.1 ∨ char ∈ given.2 := by
  unfold attrsText
  rw [List.mem_flatMap]
  refine exists_congr fun given => and_congr_right fun _ => ?_
  simp only [spelled, needle, List.mem_append, List.mem_cons, List.not_mem_nil, or_false]
  tauto

/-- Neither bracket stands in an attribute text. -/
theorem bracket_notMem_attrsText
    {attrs : List Attribute} (clean : CleanAttrs attrs) :
    '<' ∉ attrsText attrs ∧ '>' ∉ attrsText attrs := by
  have away : ∀ key, safeKey key → '<' ∉ key ∧ '>' ∉ key := by
    intro key safe
    unfold safeKey at safe
    rw [Bool.and_eq_true, List.all_eq_true] at safe
    refine ⟨fun member => ?_, fun member => ?_⟩
    · exact absurd (safe.2 _ member) (by decide)
    · exact absurd (safe.2 _ member) (by decide)
  refine ⟨fun member => ?_, fun member => ?_⟩
  all_goals
    obtain ⟨given, inside, literal | inKey | inValue⟩ := mem_attrsText.mp member
    · exact absurd literal (by decide)
    · first
        | exact (away given.1 (clean given inside).1).1 inKey
        | exact (away given.1 (clean given inside).1).2 inKey
    · first
        | exact (clean given inside).2.2.1 inValue
        | exact (clean given inside).2.2.2 inValue

theorem OpenTag.bracket_notMem {tag : OpenTag} (clean : tag.Clean) :
    '<' ∉ tag.text ∧ '>' ∉ tag.text := by
  have front := bracket_notMem_attrsText clean.attrs
  have back : '<' ∉ lateText tag.late ∧ '>' ∉ lateText tag.late := by
    cases late : tag.late with
    | none => simp [lateText]
    | some late_ =>
        have inside := bracket_notMem_attrsText (clean.late late_ late)
        simp [lateText, inside.1, inside.2]
  unfold OpenTag.text
  rw [List.mem_append, List.mem_append]
  tauto

theorem isTagChar_of_safeName {name : List Char} (safe : safeName name) :
    (∀ char ∈ name, isTagChar char) ∧ name.head?.any Char.isLower := by
  unfold safeName at safe
  simp only [Bool.and_eq_true, beq_iff_eq, List.all_eq_true] at safe
  obtain ⟨⟨⟨first, letters⟩, lower⟩, -⟩ := safe
  have small : ∀ char ∈ name, char.isLower = char.isAlpha := by
    intro char member
    have same : char.toLower = char :=
      List.map_inj_left.mp (lower.trans (List.map_id name).symm) char member
    have notUpper : char.isUpper = false := by
      rcases Text.toNat_toLower char with ⟨_, _, moved⟩ | ⟨capital, _⟩
      · rw [same] at moved
        omega
      · rw [Bool.eq_false_iff]
        intro upper
        simp only [Text.isUpper_eq, decide_eq_true_eq] at upper
        exact capital upper
    rw [Text.isAlpha_eq, notUpper, Bool.false_or]
  refine ⟨fun char member => ?_, ?_⟩
  · have letter := letters char member
    unfold isTagChar
    rwa [small char member]
  · cases name with
    | nil => cases first
    | cons char name =>
        change char.isLower = true
        rw [small char List.mem_cons_self]
        exact first

/-- The scanner finds an opening tag that has attributes. -/
theorem tagHead_opening
    {tag : OpenTag} (clean : tag.Clean) (full : tag.attrs ≠ []) (rest : List Char) :
    tagHead (tag.name ++ (tag.text ++ '>' :: rest)) = some (tag.name, tag.text, rest) := by
  obtain ⟨letters, first⟩ := isTagChar_of_safeName clean.name
  obtain ⟨given, attrs, same⟩ := List.exists_cons_of_ne_nil full
  have begins : ∃ behind, tag.text = ' ' :: behind := by
    unfold OpenTag.text
    rw [same]
    exact ⟨_, rfl⟩
  obtain ⟨behind, space⟩ := begins
  have stops : Text.Stops isTagChar (tag.text ++ '>' :: rest) := by
    rw [space]
    exact Text.stops_cons.mpr rfl
  have spaced : (tag.text ++ '>' :: rest).head?.any Outbox.isWhitespace = true := by
    rw [space]
    rfl
  unfold tagHead
  dsimp only
  rw [Text.takeWhile_append_of_stops letters stops,
    Text.dropWhile_append_of_stops letters stops,
    Text.splitOnceAt_separator (OpenTag.bracket_notMem clean).2]
  dsimp only
  rw [first, spaced]
  rfl

/-- It passes a tag without attributes. -/
theorem tagHead_bare
    {tag : OpenTag} (clean : tag.Clean) (empty : tag.attrs = []) (rest : List Char) :
    tagHead (tag.name ++ (tag.text ++ '>' :: rest)) = none := by
  obtain ⟨letters, -⟩ := isTagChar_of_safeName clean.name
  have begins : ∃ char behind, tag.text ++ '>' :: rest = char :: behind ∧
      (char = '>' ∨ char = '/') := by
    unfold OpenTag.text
    rw [empty]
    cases tag.late with
    | none => exact ⟨'>', rest, rfl, .inl rfl⟩
    | some late => exact ⟨'/', _, rfl, .inr rfl⟩
  obtain ⟨char, behind, same, which⟩ := begins
  have stops : Text.Stops isTagChar (char :: behind) := by
    rcases which with rfl | rfl <;> exact Text.stops_cons.mpr rfl
  have tight : (char :: behind).head?.any Outbox.isWhitespace = false := by
    rcases which with rfl | rfl <;> rfl
  unfold tagHead
  dsimp only
  rw [same, Text.dropWhile_append_of_stops letters stops, tight]
  split
  · simp
  · rfl

/-- It passes a closing tag. -/
theorem tagHead_closing (rest : List Char) : tagHead ('/' :: rest) = none := by
  unfold tagHead
  have nameless : ('/' :: rest).takeWhile isTagChar = [] :=
    List.takeWhile_cons_of_neg (by decide)
  dsimp only
  rw [nameless]
  split
  · rfl
  · rfl

section Scanner

variable {f : List Char → List Char → Option (List Char)}

theorem mapTagsFrom_eq (skipped : Nat) (text : List Char) :
    mapTagsFrom f skipped text = mapTags f (text.drop skipped) := by
  induction skipped generalizing text with
  | zero => rfl
  | succ skipped inductionHypothesis =>
      cases text with
      | nil => rfl
      | cons char text => exact inductionHypothesis text

theorem tagsFrom_eq (skipped : Nat) (text : List Char) :
    tagsFrom skipped text = tags (text.drop skipped) := by
  induction skipped generalizing text with
  | zero => rfl
  | succ skipped inductionHypothesis =>
      cases text with
      | nil => rfl
      | cons char text => exact inductionHypothesis text

theorem mapTags_text {run : List Char} (plain : '<' ∉ run) (rest : List Char) :
    mapTags f (run ++ rest) = run ++ mapTags f rest := by
  induction run with
  | nil => rfl
  | cons char run inductionHypothesis =>
      have differs : char ≠ '<' := fun same => plain (same ▸ List.mem_cons_self)
      rw [List.cons_append, mapTags, mapTagsFrom, if_neg differs]
      exact congrArg _ (inductionHypothesis
        fun member => plain (List.mem_cons_of_mem _ member))

theorem tags_text {run : List Char} (plain : '<' ∉ run) (rest : List Char) :
    tags (run ++ rest) = tags rest := by
  induction run with
  | nil => rfl
  | cons char run inductionHypothesis =>
      have differs : char ≠ '<' := fun same => plain (same ▸ List.mem_cons_self)
      rw [List.cons_append, tags, tagsFrom, if_neg differs]
      exact inductionHypothesis fun member => plain (List.mem_cons_of_mem _ member)

/-- A `<` that the scanner passes, and the tag behind it. -/
theorem mapTags_passed
    {inner rest : List Char} (plain : '<' ∉ inner)
    (passed : tagHead (inner ++ rest) = none) :
    mapTags f ('<' :: (inner ++ rest)) = '<' :: (inner ++ mapTags f rest) := by
  rw [mapTags, mapTagsFrom, if_pos rfl, passed]
  exact congrArg _ (mapTags_text plain rest)

theorem tags_passed
    {inner rest : List Char} (plain : '<' ∉ inner)
    (passed : tagHead (inner ++ rest) = none) :
    tags ('<' :: (inner ++ rest)) = tags rest := by
  rw [tags, tagsFrom, if_pos rfl, passed]
  exact tags_text plain rest

theorem safeName_bracket {name : List Char} (safe : safeName name) : '<' ∉ name := by
  intro member
  exact absurd ((isTagChar_of_safeName safe).1 _ member) (by decide)

/-- The opening tag that a function makes of one. -/
def Part.map (g : OpenTag → OpenTag) : Part → Part
  | .opening tag => .opening (g tag)
  | part => part

/-- A function on attribute texts that does with each tag what another function
does with the tag as a whole. -/
structure Maps (f : List Char → List Char → Option (List Char))
    (g : OpenTag → OpenTag) (tag : OpenTag) : Prop where
  name : (g tag).name = tag.name
  text : (f tag.name tag.text).getD tag.text = (g tag).text
  bare : tag.attrs = [] → g tag = tag

/-- The scanner goes over the parts one by one. -/
theorem mapTags_parts
    {g : OpenTag → OpenTag} {parts : List Part} (clean : ∀ part ∈ parts, part.Clean)
    (maps : ∀ tag, .opening tag ∈ parts → Maps f g tag) :
    mapTags f (partsHtml parts) = partsHtml (parts.map (Part.map g)) := by
  induction parts with
  | nil => rfl
  | cons part parts inductionHypothesis =>
      have first := clean part List.mem_cons_self
      have others := inductionHypothesis
        (fun other member => clean other (List.mem_cons_of_mem _ member))
        fun tag member => maps tag (List.mem_cons_of_mem _ member)
      rw [partsHtml_cons, List.map_cons, partsHtml_cons, ← others]
      cases part with
      | text chars => exact mapTags_text first _
      | opening tag =>
          have same := maps tag List.mem_cons_self
          have bracket := OpenTag.bracket_notMem first
          have plain := safeName_bracket first.name
          simp only [Part.html, Part.map, List.cons_append, List.append_assoc,
            List.nil_append]
          by_cases empty : tag.attrs = []
          · rw [same.bare empty]
            have inner : '<' ∉ tag.name ++ (tag.text ++ ['>']) := by
              simp [plain, bracket.1]
            have passed := @mapTags_passed f _ (partsHtml parts) inner (by
              simpa only [List.append_assoc, List.singleton_append] using
                tagHead_bare first empty (partsHtml parts))
            simpa only [List.append_assoc, List.singleton_append] using passed
          · rw [mapTags, mapTagsFrom, if_pos rfl, tagHead_opening first empty, same.name,
              ← same.text]
            simp only
            rw [mapTagsFrom_eq, drop_of_suffix]
            exact ⟨tag.name ++ (tag.text ++ ['>']), by simp⟩
      | closing name =>
          have inner : '<' ∉ '/' :: (name ++ ['>']) := by
            simp [safeName_bracket first]
          exact mapTags_passed inner (tagHead_closing _)

/-- The tags that the scanner finds. -/
def Part.tag : Part → List (List Char × List Char)
  | .opening tag => if tag.attrs = [] then [] else [(tag.name, tag.text)]
  | _ => []

theorem Part.mem_tag {part : Part} {found : List Char × List Char} :
    found ∈ part.tag ↔
      ∃ tag, part = .opening tag ∧ tag.attrs ≠ [] ∧ found = (tag.name, tag.text) := by
  cases part with
  | text chars => simp [Part.tag]
  | closing name => simp [Part.tag]
  | opening tag =>
      by_cases empty : tag.attrs = []
      · simp [Part.tag, empty]
      · simp [Part.tag, empty]

theorem tags_parts {parts : List Part} (clean : ∀ part ∈ parts, part.Clean) :
    tags (partsHtml parts) = parts.flatMap Part.tag := by
  induction parts with
  | nil => rfl
  | cons part parts inductionHypothesis =>
      have first := clean part List.mem_cons_self
      have others := inductionHypothesis
        fun other member => clean other (List.mem_cons_of_mem _ member)
      rw [partsHtml_cons, List.flatMap_cons, ← others]
      cases part with
      | text chars => exact tags_text first _
      | opening tag =>
          have bracket := OpenTag.bracket_notMem first
          have plain := safeName_bracket first.name
          simp only [Part.html, Part.tag, List.cons_append, List.append_assoc,
            List.nil_append]
          by_cases empty : tag.attrs = []
          · have inner : '<' ∉ tag.name ++ (tag.text ++ ['>']) := by
              simp [plain, bracket.1]
            have passed := @tags_passed _ (partsHtml parts) inner (by
              simpa only [List.append_assoc, List.singleton_append] using
                tagHead_bare first empty (partsHtml parts))
            rw [if_pos empty, List.nil_append]
            simpa only [List.append_assoc, List.singleton_append] using passed
          · rw [tags, tagsFrom, if_pos rfl, tagHead_opening first empty, if_neg empty]
            simp only
            rw [tagsFrom_eq, drop_of_suffix]
            · rfl
            · exact ⟨tag.name ++ (tag.text ++ ['>']), by simp⟩
      | closing name =>
          have inner : '<' ∉ '/' :: (name ++ ['>']) := by
            simp [safeName_bracket first]
          exact tags_passed inner (tagHead_closing _)

end Scanner

/-! ## HTML's reading -/

def OpenTag.selfClosing (tag : OpenTag) : Bool :=
  tag.late = some []

def OpenTag.attributes (tag : OpenTag) : List Attribute :=
  tag.attrs ++ tag.late.getD []

def OpenTag.startTag (tag : OpenTag) : StartTag :=
  (tag.name, tag.attributes.map fun given => (asciiLower given.1, given.2))

def Part.token : Part → Token
  | .text chars => .text chars
  | .opening tag => .start tag.name tag.selfClosing
  | .closing name => .stop name

theorem attributesIn_gap (name value text : List Char) :
    attributesIn .gap name value text = attributesIn .gap [] [] text := by
  cases text <;> rfl

/-- Attributes are read to their end. -/
theorem tagEnd_attrsText
    {within : Within} (enters : within.next ' ' = some .gap)
    {attrs : List Attribute} (clean : CleanAttrs attrs) (full : attrs ≠ [])
    (rest : List Char) :
    tagEnd within (attrsText attrs ++ rest) = tagEnd .gap rest := by
  induction attrs generalizing within with
  | nil => exact absurd rfl full
  | cons given attrs inductionHypothesis =>
      have first := clean given List.mem_cons_self
      have read := tagEnd_quoted enters first.1 first.2.1 (attrsText attrs ++ rest)
      have front : attrsText (given :: attrs) ++ rest =
          ' ' :: (given.1 ++ '=' :: '"' :: (given.2 ++ '"' :: (attrsText attrs ++ rest))) := by
        simp [attrsText, spelled, needle]
      rw [front, read]
      by_cases empty : attrs = []
      · rw [empty]
        rfl
      · exact inductionHypothesis rfl
          (fun other member => clean other (List.mem_cons_of_mem _ member)) empty

theorem attributesIn_run
    {within : Within} {name run rest : List Char} (named : within = .attrName)
    (stays : ∀ char ∈ run, Within.attrName.next char = some .attrName) :
    attributesIn within name [] (run ++ rest) =
      attributesIn .attrName (name ++ run) [] rest := by
  subst named
  induction run generalizing name with
  | nil => rw [List.append_nil, List.nil_append]
  | cons char run inductionHypothesis =>
      rw [List.cons_append, attributesIn, stays char List.mem_cons_self]
      simp only
      rw [inductionHypothesis fun other member => stays other (List.mem_cons_of_mem _ member),
        List.append_assoc]
      rfl

theorem attributesIn_value
    {name value run rest : List Char} (plain : '"' ∉ run) :
    attributesIn (.quoted '"') name value (run ++ '"' :: rest) =
      finished name (value ++ run) :: attributesIn .gap [] [] rest := by
  induction run generalizing value with
  | nil =>
      rw [List.nil_append, List.append_nil, attributesIn, if_pos rfl]
  | cons char run inductionHypothesis =>
      have differs : char ≠ '"' := fun same => plain (same ▸ List.mem_cons_self)
      rw [List.cons_append, attributesIn, if_neg differs,
        inductionHypothesis fun member => plain (List.mem_cons_of_mem _ member),
        List.append_assoc]
      rfl

/-- An attribute is read as it is written. -/
theorem attributesIn_quoted
    {key value : List Char} (safe : safeKey key) (plain : '"' ∉ value)
    (rest : List Char) :
    attributesIn .gap [] [] (' ' :: (key ++ '=' :: '"' :: (value ++ '"' :: rest))) =
      (asciiLower key, value) :: attributesIn .gap [] [] rest := by
  obtain ⟨first, tail, rfl, begins, stays⟩ := attrName_stays safe
  have space : Within.gap.next ' ' = some .gap := rfl
  rw [attributesIn, space]
  simp only
  rw [List.cons_append, attributesIn, begins]
  simp only
  rw [attributesIn_run rfl stays]
  change attributesIn (.quoted '"') ([first] ++ tail) [] (value ++ '"' :: rest) = _
  rw [attributesIn_value plain]
  rfl

theorem attributesIn_attrsText
    {attrs : List Attribute} (clean : CleanAttrs attrs) (rest : List Char) :
    attributesIn .gap [] [] (attrsText attrs ++ rest) =
      (attrs.map fun given => (asciiLower given.1, given.2)) ++
        attributesIn .gap [] [] rest := by
  induction attrs with
  | nil => rfl
  | cons given attrs inductionHypothesis =>
      have first := clean given List.mem_cons_self
      have read := attributesIn_quoted first.1 first.2.1 (attrsText attrs ++ rest)
      have front : attrsText (given :: attrs) ++ rest =
          ' ' :: (given.1 ++ '=' :: '"' :: (given.2 ++ '"' :: (attrsText attrs ++ rest))) := by
        simp [attrsText, spelled, needle]
      rw [front, read, inductionHypothesis
        fun other member => clean other (List.mem_cons_of_mem _ member)]
      rfl

/-- Behind a slash attributes are read as before. -/
theorem attributesIn_slash (name value text : List Char) :
    attributesIn .slash name value text = attributesIn .gap [] [] text := by
  cases text <;> rfl

theorem attributesIn_name {text : List Char} (ends : EndsName text) :
    attributesIn .name [] [] text = attributesIn .gap [] [] text := by
  obtain ⟨char, rest, rfl, space | rfl | rfl⟩ := ends
  · have away : char ≠ '>' := by
      rintro rfl
      cases space
    have first : Within.name.next char = some .gap := by
      rw [Within.next, if_neg away, if_pos space]
    have second : Within.gap.next char = some .gap := by
      rw [Within.next, gapNext, if_neg away, if_pos space]
    rw [attributesIn, first, attributesIn, second]
    exact (attributesIn_gap _ _ _).symm
  · exact (attributesIn_slash _ _ _).trans (attributesIn_slash _ _ _).symm
  · rfl

theorem attributesIn_nameRun {name : List Char} (safe : safeName name) (rest : List Char) :
    attributesIn .name [] [] (name ++ rest) = attributesIn .name [] [] rest := by
  have letters := (safeName_chars safe).2.1
  clear safe
  induction name with
  | nil => rfl
  | cons char name inductionHypothesis =>
      have plain := isNameChar_plain (letters char List.mem_cons_self)
      have stays : Within.name.next char = some .name := by
        rw [Within.next, if_neg plain.1, if_neg (by simp [plain.2.1]),
          if_neg plain.2.2.1]
      rw [List.cons_append, attributesIn, stays]
      exact inductionHypothesis fun other member =>
        letters other (List.mem_cons_of_mem _ member)

theorem OpenTag.endsName (tag : OpenTag) (rest : List Char) :
    EndsName (tag.text ++ '>' :: rest) := by
  unfold OpenTag.text
  cases tag.attrs with
  | nil =>
      cases tag.late with
      | none => exact ⟨'>', rest, rfl, .inr (.inr rfl)⟩
      | some late => exact ⟨'/', _, rfl, .inr (.inl rfl)⟩
  | cons given attrs => exact ⟨' ', _, rfl, .inl rfl⟩

theorem tagEnd_lateText
    {within : Within} (between : within = .name ∨ within = .gap)
    {late : Option (List Attribute)} (clean : ∀ attrs ∈ late, CleanAttrs attrs)
    (rest : List Char) :
    tagEnd within (lateText late ++ '>' :: rest) = some (decide (late = some []), rest) := by
  cases late with
  | none => rcases between with rfl | rfl <;> rfl
  | some late =>
      have slash : tagEnd within ('/' :: (attrsText late ++ '>' :: rest)) =
          tagEnd .slash (attrsText late ++ '>' :: rest) := by
        rcases between with rfl | rfl <;> rfl
      rw [lateText, List.cons_append, slash]
      by_cases empty : late = []
      · rw [empty]
        rfl
      · rw [tagEnd_attrsText rfl (clean late rfl) empty]
        simp only [Option.some.injEq, empty, decide_false]
        rfl

/-- HTML reads an opening tag as it is written. -/
theorem markup_opening {tag : OpenTag} (clean : tag.Clean) (rest : List Char) :
    markup (tag.name ++ (tag.text ++ '>' :: rest)) =
      some (.start tag.name tag.selfClosing, rest) := by
  obtain ⟨⟨first, tail, begins, letter⟩, -, -, -⟩ := safeName_chars clean.name
  have opens : ∀ behind, markup (tag.name ++ behind) =
      some (tagAt .start (tag.name ++ behind)) := by
    intro behind
    rw [begins]
    exact markup_letter letter _
  have ends : tagEnd .name (tag.text ++ '>' :: rest) = some (tag.selfClosing, rest) := by
    unfold OpenTag.text
    rw [List.append_assoc]
    by_cases empty : tag.attrs = []
    · rw [empty]
      exact tagEnd_lateText (.inl rfl) clean.late rest
    · rw [tagEnd_attrsText rfl clean.attrs empty]
      exact tagEnd_lateText (.inr rfl) clean.late rest
  rw [opens, tagAt, tagEnd_name clean.name, ends, tagName_append clean.name
    (tag.endsName rest)]

theorem attributesOf_opening {tag : OpenTag} (clean : tag.Clean) (rest : List Char) :
    attributesOf (tag.name ++ (tag.text ++ '>' :: rest)) = tag.startTag.2 := by
  have late : attributesIn .gap [] [] (lateText tag.late ++ '>' :: rest) =
      (tag.late.getD []).map fun given => (asciiLower given.1, given.2) := by
    cases same : tag.late with
    | none => rfl
    | some late =>
        have slash : attributesIn .gap [] [] (lateText (some late) ++ '>' :: rest) =
            attributesIn .slash ['/'] [] (attrsText late ++ '>' :: rest) := rfl
        rw [slash, attributesIn_slash, attributesIn_attrsText (clean.late late same)]
        exact List.append_nil _
  rw [attributesOf, attributesIn_nameRun clean.name, attributesIn_name (tag.endsName rest)]
  unfold OpenTag.text
  rw [List.append_assoc, attributesIn_attrsText clean.attrs, late]
  exact List.map_append.symm

/-- Texts, and the tokens between them, with neighbouring texts as one. -/
def mergeTexts (run : List Char) : List Token → List Token
  | [] => textTokens run
  | .text chars :: tokens => mergeTexts (run ++ chars) tokens
  | token :: tokens => textTokens run ++ token :: mergeTexts [] tokens

/-- The tokens of some parts. -/
theorem tokens_parts
    {parts : List Part} (clean : ∀ part ∈ parts, part.Clean)
    {run : List Char} (plain : '<' ∉ run) :
    tokens (run ++ partsHtml parts) = mergeTexts run (parts.map Part.token) := by
  induction parts generalizing run with
  | nil =>
      have alone := tokens_run plain (show ∀ char ∈ ([] : List Char).head?, char = '<' by simp)
      rwa [tokens_nil, List.append_nil (textTokens run)] at alone
  | cons part parts inductionHypothesis =>
      have first := clean part List.mem_cons_self
      have others := fun other member => clean other (List.mem_cons_of_mem part member)
      have behind := @inductionHypothesis others [] (by simp)
      rw [List.nil_append] at behind
      rw [partsHtml_cons]
      cases part with
      | text chars =>
          rw [← List.append_assoc]
          have together : '<' ∉ run ++ chars := by
            rw [List.mem_append]
            exact fun member => member.elim plain first
          exact inductionHypothesis others together
      | opening tag =>
          rw [tokens_run plain (by simp [Part.html])]
          simp only [Part.html, List.cons_append, List.append_assoc, List.nil_append]
          rw [tokens_lt_markup (markup_opening first _), rawBehind,
            (safeName_chars first.name).2.2.2, if_neg Bool.false_ne_true, behind]
          rfl
      | closing name =>
          rw [tokens_run plain (by simp [Part.html])]
          have closes := tokens_closing first (partsHtml parts)
          rw [behind] at closes
          exact congrArg _ closes

/-- The start tag of a part. -/
def Part.startTags : Part → List StartTag
  | .opening tag => [tag.startTag]
  | _ => []

theorem startTags_parts {parts : List Part} (clean : ∀ part ∈ parts, part.Clean) :
    startTags (partsHtml parts) = parts.flatMap Part.startTags := by
  induction parts with
  | nil => rfl
  | cons part parts inductionHypothesis =>
      have first := clean part List.mem_cons_self
      have others := inductionHypothesis
        fun other member => clean other (List.mem_cons_of_mem _ member)
      rw [partsHtml_cons, List.flatMap_cons, ← others]
      cases part with
      | text chars => exact startTags_text first _
      | opening tag =>
          simp only [Part.html, List.cons_append, List.append_assoc, List.nil_append]
          rw [startTags_lt_markup (markup_opening first _), startTagOf,
            attributesOf_opening first, rawBehind, (safeName_chars first.name).2.2.2,
            if_neg Bool.false_ne_true]
          rfl
      | closing name =>
          simp only [Part.html, List.cons_append, List.append_assoc, List.nil_append]
          rw [startTags_lt_markup (markup_closing first _)]
          rfl

/-! ## Frames -/

/-- Attributes as HTML reads their names, without those of some names. -/
def others (keys : List (List Char)) (attrs : List Attribute) : List Attribute :=
  (attrs.map fun given => (asciiLower given.1, given.2)).filter
    fun given => !keys.contains given.1

theorem others_append (keys : List (List Char)) (first second : List Attribute) :
    others keys (first ++ second) = others keys first ++ others keys second := by
  simp [others]

theorem others_cons {keys : List (List Char)} {name : List Char}
    (inside : asciiLower name ∈ keys) (value : List Char) (attrs : List Attribute) :
    others keys ((name, value) :: attrs) = others keys attrs := by
  simp [others, inside]

/-- A function on tags that keeps all but some attributes. -/
structure KeepsOthers (keys : List (List Char)) (g : OpenTag → OpenTag) (tag : OpenTag) :
    Prop where
  clean : (g tag).Clean
  name : (g tag).name = tag.name
  selfClosing : (g tag).selfClosing = tag.selfClosing
  others : others keys (g tag).attributes = others keys tag.attributes

theorem clean_map {g : OpenTag → OpenTag} {parts : List Part}
    (clean : ∀ part ∈ parts, part.Clean)
    (keeps : ∀ tag, .opening tag ∈ parts → (g tag).Clean) :
    ∀ part ∈ parts.map (Part.map g), part.Clean := by
  intro part member
  obtain ⟨before, inside, rfl⟩ := List.mem_map.mp member
  cases before with
  | text chars => exact clean _ inside
  | opening tag => exact keeps tag inside
  | closing name => exact clean _ inside

theorem sameBut_parts
    {keys : List (List Char)} {g : OpenTag → OpenTag} {parts : List Part}
    (clean : ∀ part ∈ parts, part.Clean)
    (keeps : ∀ tag, .opening tag ∈ parts → KeepsOthers keys g tag) :
    SameBut keys (partsHtml parts) (partsHtml (parts.map (Part.map g))) := by
  have cleanAfter := clean_map clean fun tag member => (keeps tag member).clean
  constructor
  · have before := @tokens_parts parts clean [] (by simp)
    have after := @tokens_parts _ cleanAfter [] (by simp)
    rw [List.nil_append] at before after
    rw [before, after, List.map_map]
    congr 1
    refine List.map_congr_left fun part member => ?_
    cases part with
    | text chars => rfl
    | opening tag =>
        have same := keeps tag member
        change Token.start tag.name tag.selfClosing =
          Token.start (g tag).name (g tag).selfClosing
        rw [same.name, same.selfClosing]
    | closing name => rfl
  · rw [startTags_parts clean, startTags_parts cleanAfter, List.map_flatMap,
      List.map_flatMap, List.flatMap_map]
    refine List.flatMap_congr fun part member => ?_
    cases part with
    | text chars => rfl
    | opening tag =>
        have same := keeps tag member
        change [(tag.name, Html.others keys tag.attributes)] =
          [((g tag).name, Html.others keys (g tag).attributes)]
        rw [same.name, same.others]
    | closing name => rfl

end Html
end Mailcore

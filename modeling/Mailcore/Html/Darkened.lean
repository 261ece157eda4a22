import Mailcore.Html.Dark
import Mailcore.Html.FindAttr
import Mailcore.Text.Decimal

/-!
# What the dark rewrite touches

A colour is written without quotes and brackets, so that a converted value stays
inside its attribute.
-/

namespace Mailcore
namespace Html

open Markup
open Text (splitOnceAt asciiLower)

/-! ## Clean values -/

/-- A character that ends neither a value nor a tag. -/
def PlainChar (char : Char) : Prop :=
  char ≠ '"' ∧ char ≠ '<' ∧ char ≠ '>'

instance (char : Char) : Decidable (PlainChar char) :=
  inferInstanceAs (Decidable (_ ∧ _))

theorem cleanValue_iff {value : List Char} :
    CleanValue value ↔ ∀ char ∈ value, PlainChar char := by
  constructor
  · rintro ⟨quote, open_, close⟩ char member
    refine ⟨?_, ?_, ?_⟩
    · rintro rfl
      exact quote member
    · rintro rfl
      exact open_ member
    · rintro rfl
      exact close member
  · intro plain
    exact ⟨fun member => (plain _ member).1 rfl, fun member => (plain _ member).2.1 rfl,
      fun member => (plain _ member).2.2 rfl⟩

theorem cleanValue_of_all {value : List Char}
    (all : value.all fun char => PlainChar char) : CleanValue value :=
  cleanValue_iff.mpr fun char member =>
    of_decide_eq_true (List.all_eq_true.mp all char member)

theorem plainChar_of_isAlphanum {char : Char} (letter : char.isAlphanum) :
    PlainChar char := by
  refine ⟨?_, ?_, ?_⟩
  all_goals
    rintro rfl
    exact absurd letter (by decide)

theorem plainChar_of_mem_repr {value : Nat} {char : Char}
    (member : char ∈ value.repr.toList) : PlainChar char := by
  have digit := Text.isDigit_of_mem_repr member
  refine plainChar_of_isAlphanum ?_
  rw [Char.isAlphanum, digit, Bool.or_true]

theorem CleanValue.append {first second : List Char}
    (left : CleanValue first) (right : CleanValue second) :
    CleanValue (first ++ second) := by
  rw [cleanValue_iff] at left right ⊢
  intro char member
  exact (List.mem_append.mp member).elim (left char) (right char)

theorem CleanValue.subset {value part : List Char}
    (clean : CleanValue value) (within : part ⊆ value) : CleanValue part := by
  rw [cleanValue_iff] at clean ⊢
  exact fun char member => clean char (within member)

theorem cleanValue_repr (value : Nat) : CleanValue value.repr.toList :=
  cleanValue_iff.mpr fun _ => plainChar_of_mem_repr

theorem mem_intercalate {separator char : Char} {pieces : List (List Char)}
    (member : char ∈ [separator].intercalate pieces) :
    char = separator ∨ ∃ piece ∈ pieces, char ∈ piece := by
  induction pieces with
  | nil => cases member
  | cons piece pieces inductionHypothesis =>
      by_cases empty : pieces = []
      · rw [empty, List.intercalate_singleton] at member
        exact .inr ⟨piece, List.mem_cons_self, member⟩
      · rw [List.intercalate_cons_of_ne_nil empty, List.append_assoc] at member
        rcases List.mem_append.mp member with here | behind
        · exact .inr ⟨piece, List.mem_cons_self, here⟩
        · rcases List.mem_cons.mp behind with same | later
          · exact .inl same
          · refine (inductionHypothesis later).imp id ?_
            rintro ⟨other, inside, has⟩
            exact ⟨other, List.mem_cons_of_mem _ inside, has⟩

/-- Declarations that stay clean one by one stay clean together. -/
theorem cleanValue_declarations
    {f : List Char → List Char} (keeps : ∀ decl, CleanValue decl → CleanValue (f decl))
    {style : List Char} (clean : CleanValue style) :
    CleanValue ([';'].intercalate ((style.splitOn ';').map f)) := by
  rw [cleanValue_iff]
  intro char member
  rcases mem_intercalate member with rfl | ⟨piece, inside, has⟩
  · decide
  · obtain ⟨decl, within, rfl⟩ := List.mem_map.mp inside
    have part : CleanValue decl :=
      clean.subset fun char has => (Text.mem_of_mem_splitOn within has).1
    exact cleanValue_iff.mp (keeps decl part) char has

/-! ## What only looks like a value -/

theorem mem_opener_safe {name : List Char} (safe : safeKey name) {char : Char}
    (member : char ∈ opener name) : char = ' ' ∨ char = '=' ∨ isNameChar char := by
  unfold safeKey at safe
  rw [Bool.and_eq_true, List.all_eq_true] at safe
  unfold opener at member
  simp only [List.mem_cons, List.mem_append, List.not_mem_nil, or_false] at member
  rcases member with space | inName | equals
  · exact .inl space
  · exact .inr (.inr (safe.2 char inName))
  · exact .inr (.inl equals)

theorem notMem_opener {name : List Char} (safe : safeKey name) {char : Char}
    (space : char ≠ ' ') (equals : char ≠ '=') (letter : isNameChar char = false) :
    char ∉ opener name := by
  intro member
  rcases mem_opener_safe safe member with same | same | named
  · exact space same
  · exact equals same
  · rw [letter] at named
    cases named

/-- An opener is one declaration, and has no colon. -/
theorem declarations_opener {name : List Char} (safe : safeKey name)
    {f : List Char → List Char}
    (fixed : ∀ decl, splitOnceAt [':'] decl = none → f decl = decl) :
    [';'].intercalate (((opener name).splitOn ';').map f) = opener name := by
  have single : (opener name).splitOn ';' = [opener name] := by
    have cut := @List.splitOn_intercalate _ [opener name] _ _ ';'
      (by simpa using notMem_opener safe (by decide) (by decide) (by decide)) (by simp)
    rwa [List.intercalate_singleton] at cut
  have colonless : splitOnceAt [':'] (opener name) = none :=
    Text.splitOnceAt_none (List.mem_singleton_self ':')
      (notMem_opener safe (by decide) (by decide) (by decide))
  rw [single, List.map_singleton, List.intercalate_singleton, fixed _ colonless]

namespace Dark

/-! ## Colours -/

theorem cleanValue_css (color : Nat) : CleanValue (css color) := by
  have digit : ∀ value : Nat, PlainChar (Nat.digitChar (value % 16)) := by
    intro value
    have bound : value % 16 < 16 := Nat.mod_lt _ (by decide)
    have all : ∀ value < 16, PlainChar (Nat.digitChar value) := by decide
    exact all _ bound
  rw [cleanValue_iff]
  intro char member
  rcases List.mem_cons.mp member with rfl | inside
  · decide
  · obtain ⟨place, -, rfl⟩ := List.mem_map.mp inside
    exact digit _

theorem plainChar_of_mem_digits {width value : Nat} {char : Char}
    (member : char ∈ Text.digits width value) : PlainChar char := by
  induction width generalizing value with
  | zero => cases member
  | succ width inductionHypothesis =>
      rw [Text.digits] at member
      rcases List.mem_append.mp member with front | last
      · exact inductionHypothesis front
      · rw [List.mem_singleton.mp last]
        have bound : value % 10 < 10 := Nat.mod_lt _ (by decide)
        have all : ∀ value < 10, PlainChar (Nat.digitChar value) := by decide
        exact all _ bound

theorem cleanValue_alphaText (alpha : Nat) : CleanValue (alphaText alpha) := by
  have whole : CleanValue (((2000 * alpha + 255) / 510 / 1000).repr.toList ++
      '.' :: Text.digits 3 ((2000 * alpha + 255) / 510 % 1000)) := by
    refine (cleanValue_repr _).append (cleanValue_iff.mpr fun char member => ?_)
    rcases List.mem_cons.mp member with rfl | digit
    · decide
    · exact plainChar_of_mem_digits digit
  have trimmed := whole.subset (List.rdropWhile_prefix (· = '0') _).subset
  unfold alphaText
  dsimp only
  split
  · exact trimmed.append (cleanValue_of_all (by decide))
  · exact trimmed

theorem cleanValue_toCss (color alpha : Nat) : CleanValue (toCss color alpha) := by
  have comma {rest : List Char} (clean : CleanValue rest) : CleanValue (',' :: rest) :=
    CleanValue.append (cleanValue_of_all (by decide) : CleanValue [',']) clean
  unfold toCss
  split
  · exact cleanValue_css color
  · refine (cleanValue_of_all (by decide)).append ?_
    refine (cleanValue_repr _).append (comma ?_)
    refine (cleanValue_repr _).append (comma ?_)
    refine (cleanValue_repr _).append (comma ?_)
    exact (cleanValue_alphaText alpha).append (cleanValue_of_all (by decide))

section Convert

variable {floats : Floats}

theorem cleanValue_convertValue {value converted : List Char}
    (found : convertValue floats value = some converted) (clean : CleanValue value) :
    CleanValue converted := by
  unfold convertValue at found
  obtain ⟨color, -, rfl⟩ := Option.map_eq_some_iff.mp found
  refine (cleanValue_toCss _ _).append ?_
  split
  · refine clean.subset fun char member => ?_
    exact (List.rdropWhile_prefix _ _).subset (List.mem_of_mem_drop member)
  · exact cleanValue_iff.mpr (by simp)

theorem cleanValue_convertTokensIn {fuel : Nat} {prev : Option Char} {value : List Char}
    (clean : CleanValue value) : CleanValue (convertTokensIn floats fuel prev value) := by
  induction fuel generalizing prev value with
  | zero => exact cleanValue_iff.mpr (by simp [convertTokensIn])
  | succ fuel inductionHypothesis =>
      cases value with
      | nil => exact cleanValue_iff.mpr (by simp [convertTokensIn])
      | cons char rest =>
          rw [convertTokensIn]
          split
          · next n _ =>
            have token : CleanValue ((char :: rest).take n) :=
              clean.subset (List.take_subset _ _)
            refine CleanValue.append ?_ (inductionHypothesis
              (clean.subset (List.drop_subset _ _)))
            unfold convertToken
            dsimp only
            split
            · cases found : convertValue floats ((char :: rest).take n) with
              | none => exact token
              | some converted => exact cleanValue_convertValue found token
            · exact token
          · have first : CleanValue [char] := clean.subset (by simp)
            exact first.append (inductionHypothesis
              (clean.subset (List.subset_cons_self _ _)))

theorem cleanValue_convertDecl {decl : List Char} (clean : CleanValue decl) :
    CleanValue (convertDecl floats decl) := by
  unfold convertDecl
  split
  · exact clean
  · next prop value cut =>
    have whole := Text.eq_append_of_splitOnceAt cut
    have front : CleanValue (trim prop ++ [':']) := by
      refine CleanValue.append (clean.subset fun char member => ?_)
        (cleanValue_of_all (by decide))
      rw [whole]
      simp [trim_subset prop member]
    have back : CleanValue value := by
      refine clean.subset fun char member => ?_
      rw [whole]
      simp [member]
    have joined {v : List Char} (right : CleanValue v) :
        CleanValue (trim prop ++ ':' :: v) := by
      have both := front.append right
      rwa [List.append_assoc] at both
    dsimp only
    split
    · split
      · next found => exact joined (cleanValue_convertValue found back)
      · exact clean
    · split
      · split
        · exact clean
        · exact joined (cleanValue_convertTokensIn (back.subset (trim_subset value)))
      · exact clean

theorem cleanValue_convertStyle {style : List Char} (clean : CleanValue style) :
    CleanValue (convertStyle floats style) :=
  cleanValue_declarations (fun _ => cleanValue_convertDecl) clean

/-! ## What only looks like a colour -/

theorem convertStyle_opener {name : List Char} (safe : safeKey name) :
    convertStyle floats (opener name) = opener name := by
  refine declarations_opener safe fun decl colonless => ?_
  unfold convertDecl
  rw [colonless]

theorem isWhitespace_of_isNameChar {char : Char} (letter : isNameChar char) :
    Outbox.isWhitespace char = false := by
  have code : (48 ≤ char.toNat ∧ char.toNat ≤ 57) ∨ (65 ≤ char.toNat ∧ char.toNat ≤ 90) ∨
      (97 ≤ char.toNat ∧ char.toNat ≤ 122) ∨ char.toNat = 45 := by
    simp only [isNameChar, Char.isAlphanum, Text.isAlpha_eq, Text.isUpper_eq, Text.isLower_eq,
      Char.isDigit, Bool.or_eq_true, Bool.and_eq_true, decide_eq_true_eq, beq_iff_eq,
      ge_iff_le, UInt32.le_iff_toNat_le] at letter
    rcases letter with ((upper | lower) | digit) | rfl
    · exact .inr (.inl upper)
    · exact .inr (.inr (.inl lower))
    · exact .inl digit
    · exact .inr (.inr (.inr rfl))
  unfold Outbox.isWhitespace
  simp only [Bool.or_eq_false_iff, Bool.and_eq_false_iff, decide_eq_false_iff_not]
  omega

theorem trim_opener {name : List Char} (safe : safeKey name) :
    trim (opener name) = name ++ ['='] := by
  unfold safeKey at safe
  rw [Bool.and_eq_true, decide_eq_true_eq, List.all_eq_true] at safe
  obtain ⟨first, rest, rfl⟩ := List.exists_cons_of_ne_nil safe.1
  have space : trim (opener (first :: rest)) = trim (first :: rest ++ ['=']) := by
    unfold trim Text.strip opener
    rw [List.dropWhile_cons_of_pos (by decide)]
  rw [space]
  refine Text.strip_of_bare (Text.stops_cons.mpr ?_) ?_
  · exact isWhitespace_of_isNameChar (safe.2 first List.mem_cons_self)
  · intro letter last
    rw [List.getLast?_concat, Option.mem_def, Option.some.injEq] at last
    rw [← last]
    decide

theorem stripPrefix_none {front : String} {text : List Char} {char : Char}
    (inside : char ∈ front.toList) (missing : char ∉ text) :
    stripPrefix front text = none := by
  unfold stripPrefix
  rw [if_neg]
  intro begins
  obtain ⟨rest, rfl⟩ := List.isPrefixOf_iff_prefix.mp begins
  exact missing (List.mem_append_left _ inside)

theorem stripSuffix_none {back : String} {text : List Char} {char : Char}
    (inside : char ∈ back.toList) (missing : char ∉ text) :
    stripSuffix back text = none := by
  unfold stripSuffix
  rw [if_neg]
  intro ends
  obtain ⟨front, rfl⟩ := List.isSuffixOf_iff_suffix.mp ends
  exact missing (List.mem_append_right _ inside)

/-- No colour keyword has an equals sign. -/
theorem named_none {word : List Char} (equals : '=' ∈ word) : named word = none := by
  have away : ∀ entry ∈ NAMED, '=' ∉ entry.1.toList := by decide +kernel
  unfold named
  rw [Option.map_eq_none_iff, List.find?_eq_none]
  intro entry member same
  rw [decide_eq_true_eq] at same
  refine away entry member ?_
  rw [same, String.toList_ofList]
  exact (Text.mem_asciiLower (by decide)).mpr equals

theorem convertValue_opener {name : List Char} (safe : safeKey name) :
    convertValue floats (opener name) = none := by
  have bare : trimEnd (opener name) = opener name := by
    refine Text.rdropWhile_of_bare fun letter last => ?_
    have ends : (opener name).getLast? = some '=' := by
      unfold opener
      rw [← List.cons_append, List.getLast?_concat]
    rw [ends, Option.mem_def, Option.some.injEq] at last
    rw [← last]
    decide
  have away {char : Char} (space : char ≠ ' ') (equals : char ≠ '=')
      (letter : isNameChar char = false)
      (capital : ¬(65 ≤ char.toNat ∧ char.toNat ≤ 90) ∧
        ¬(97 ≤ char.toNat ∧ char.toNat ≤ 122)) :
      char ∉ asciiLower (opener name) := by
    rw [Text.mem_asciiLower capital]
    exact notMem_opener safe space equals letter
  have mark : stripSuffix "!important" (asciiLower (opener name)) = none :=
    @stripSuffix_none _ _ '!' (by decide)
      (away (by decide) (by decide) (by decide) (by decide))
  have inside : '(' ∉ asciiLower (name ++ ['=']) := by
    rw [Text.mem_asciiLower (by decide)]
    intro member
    exact notMem_opener safe (by decide) (by decide) (by decide : isNameChar '(' = false)
      (List.mem_cons_of_mem _ member)
  unfold convertValue
  dsimp only
  rw [bare, mark]
  dsimp only
  unfold parseColor
  dsimp only
  rw [trim_opener safe]
  split
  · next hex begins =>
    exfalso
    have hash : '#' ∈ opener name := by
      unfold opener
      rw [begins]
      simp
    exact notMem_opener safe (by decide) (by decide) (by decide) hash
  · rw [stripPrefix_none (by decide : '(' ∈ "rgba(".toList) inside,
      stripPrefix_none (by decide : '(' ∈ "rgb(".toList) inside]
    have none_ : named (name ++ ['=']) = none := named_none (by simp)
    simp [none_]

/-! ## The frame -/

/-- A colour with its value converted, where it is one. -/
def convertColor (floats : Floats) (value : List Char) : List Char :=
  (convertValue floats value).getD value

theorem darkenAttr_eq (attrs key : List Char) :
    darkenAttr floats attrs key = rewriteAttr (convertColor floats) key attrs := by
  unfold darkenAttr rewriteAttr convertColor
  cases found : findAttr attrs key with
  | none => rfl
  | some triple =>
      obtain ⟨front, value, back⟩ := triple
      dsimp only
      cases convertValue floats value with
      | none => exact eq_of_findAttr found
      | some converted => rfl

theorem cleanValue_convertColor {value : List Char} (clean : CleanValue value) :
    CleanValue (convertColor floats value) := by
  unfold convertColor
  cases found : convertValue floats value with
  | none => exact clean
  | some converted => exact cleanValue_convertValue found clean

theorem convertColor_opener {name : List Char} (safe : safeKey name) :
    convertColor floats (opener name) = opener name := by
  rw [convertColor, convertValue_opener safe]
  rfl

/-- The attributes behind the dark rewrite. -/
def darkened (floats : Floats) (attrs : List Attribute) : List Attribute :=
  modifySeen "color".toList (convertColor floats)
    (modifySeen "bgcolor".toList (convertColor floats)
      (modifySeen "style".toList (convertStyle floats) attrs))

theorem darkenAttrs_attrsText
    {attrs : List Attribute} (clean : CleanAttrs attrs)
    {tail : List Char} (plain : '"' ∉ tail) :
    darkenAttrs floats (attrsText attrs ++ tail) =
      attrsText (darkened floats attrs) ++ tail ∧ CleanAttrs (darkened floats attrs) := by
  have style := @clean_modifySeen "style".toList (convertStyle floats) attrs clean
    fun _ => cleanValue_convertStyle
  have bgcolor := @clean_modifySeen "bgcolor".toList (convertColor floats) _ style
    fun _ => cleanValue_convertColor
  have color := @clean_modifySeen "color".toList (convertColor floats) _ bgcolor
    fun _ => cleanValue_convertColor
  have opens : ∀ name, safeKey name →
      convertColor floats (opener name) = opener name := fun _ => convertColor_opener
  refine ⟨?_, color⟩
  unfold darkenAttrs darkened
  rw [darkenAttr_eq, darkenAttr_eq]
  have first : darkenStyle floats (attrsText attrs ++ tail) =
      attrsText (modifySeen "style".toList (convertStyle floats) attrs) ++ tail :=
    rewriteAttr_attrsText (by decide) clean (.inl fun _ => convertStyle_opener) plain
  rw [first, rewriteAttr_attrsText (by decide) style (.inl opens) plain,
    rewriteAttr_attrsText (by decide) bgcolor (.inl opens) plain]

/-- Attributes that carry colours. -/
def colorKeys : List (List Char) :=
  ["style".toList, "bgcolor".toList, "color".toList]

theorem others_darkened (attrs : List Attribute) :
    others colorKeys (darkened floats attrs) = others colorKeys attrs := by
  unfold darkened
  rw [others_modifySeen (by decide), others_modifySeen (by decide),
    others_modifySeen (by decide)]

/-- The dark rewrite touches colours only. -/
theorem sameBut_darkenColors {parts : List Part}
    (clean : ∀ part ∈ parts, part.Clean)
    (tight : ∀ tag, .opening tag ∈ parts → tag.Tight) :
    SameBut colorKeys (partsHtml parts) (darkenColors floats (partsHtml parts)) := by
  let g (tag : OpenTag) : OpenTag := { tag with attrs := darkened floats tag.attrs }
  have text : ∀ tag, .opening tag ∈ parts →
      darkenAttrs floats tag.text = (g tag).text ∧ CleanAttrs (g tag).attrs := by
    intro tag member
    exact darkenAttrs_attrsText (clean _ member).attrs
      (quote_notMem_lateText (tight tag member))
  have mapped : darkenColors floats (partsHtml parts) =
      partsHtml (parts.map (Part.map g)) := by
    refine mapTags_parts clean fun tag member => ⟨rfl, (text tag member).1, fun empty => ?_⟩
    change { tag with attrs := darkened floats tag.attrs } = tag
    rw [empty]
    cases tag
    cases empty
    rfl
  rw [mapped]
  refine sameBut_parts clean fun tag member => ⟨?_, rfl, rfl, ?_⟩
  · exact ⟨(clean _ member).name, (text tag member).2, (clean _ member).late⟩
  · change others colorKeys (darkened floats tag.attrs ++ tag.late.getD []) = _
    rw [others_append, others_darkened, ← others_append]
    rfl

end Convert

end Dark
end Html
end Mailcore

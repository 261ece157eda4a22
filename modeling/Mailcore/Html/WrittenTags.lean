import Mailcore.Html.Rewrites

/-!
# The tags that the sanitizer writes

Where a width survives no value ends like an attribute that opens, and only the
badge of a blocked image has tags that close themselves.
-/

namespace Mailcore
namespace Html

open Markup
open Text (asciiLower parseUnsigned)

/-! ## Shut values -/

theorem shut_of_notMem {value : List Char} (plain : '=' ∉ value) : Shut value :=
  fun last => plain (List.mem_of_getLast? last)

theorem shut_repr (value : Nat) : Shut value.repr.toList :=
  shut_of_notMem fun member => absurd (Text.isDigit_of_mem_repr member) (by decide)

/-- Escaping writes no `=` of its own. -/
theorem shut_escapeAttr {value : List Char} (shut : Shut value) : Shut (escapeAttr value) := by
  rcases List.eq_nil_or_concat' value with rfl | ⟨front, char, rfl⟩
  · exact shut
  have differs : char ≠ '=' := by
    rintro rfl
    exact shut List.getLast?_concat
  have last : (escapeAttrChar char).getLast? ≠ some '=' ∧ escapeAttrChar char ≠ [] := by
    unfold escapeAttrChar
    split
    · decide
    · decide
    · decide
    · decide
    · simpa using differs
  unfold Shut escapeAttr
  rw [List.flatMap_append, List.flatMap_singleton,
    List.getLast?_append_of_ne_nil _ last.2]
  exact last.1

theorem shut_keptDeclarations {out : List Char} (shut : Shut out) (decls : List (List Char)) :
    Shut (keptDeclarations out decls) := by
  induction decls generalizing out with
  | nil => exact shut
  | cons decl decls inductionHypothesis =>
      rw [keptDeclarations]
      split
      · exact inductionHypothesis shut
      · next piece kept =>
        split
        · exact shut
        · refine inductionHypothesis ?_
          obtain ⟨⟨prop, value⟩, -, kept⟩ := Option.bind_eq_some_iff.mp kept
          dsimp only at kept
          split_ifs at kept
          rw [← Option.some.inj kept, ← List.cons_append, ← List.append_assoc,
            ← List.append_assoc]
          unfold Shut
          rw [List.getLast?_concat]
          decide

theorem shut_sanitizeStyle {raw kept : List Char} (found : sanitizeStyle raw = some kept) :
    Shut kept := by
  unfold sanitizeStyle at found
  dsimp only at found
  split_ifs at found
  rw [← Option.some.inj found]
  exact shut_keptDeclarations (by simp [Shut]) _

theorem shut_keyword {raw kept : List Char} {allowed : List String}
    (all : ∀ word ∈ allowed, '=' ∉ word.toList)
    (found : keyword raw allowed = some kept) : Shut kept := by
  unfold keyword at found
  dsimp only at found
  split_ifs at found with named
  obtain ⟨word, member, same⟩ := exists_of_isOneOf named
  rw [← Option.some.inj found, same]
  exact shut_of_notMem (all word member)

theorem shut_safeColor {raw kept : List Char} (found : safeColor raw = some kept) :
    Shut kept := by
  unfold safeColor at found
  dsimp only at found
  generalize trim raw = value at found
  split_ifs at found with ok
  obtain rfl := Option.some.inj found
  refine shut_of_notMem fun member => ?_
  split at ok
  · rw [Bool.and_eq_true, List.all_eq_true] at ok
    rcases List.mem_cons.mp member with sharp | inside
    · exact absurd sharp (by decide)
    · exact absurd (ok.2 _ inside) (by decide)
  · rw [Bool.and_eq_true, List.all_eq_true] at ok
    exact absurd (ok.2 _ member) (by decide)

theorem shut_safeLength {raw kept : List Char} (found : safeLength raw = some kept) :
    Shut kept := by
  unfold safeLength at found
  dsimp only at found
  split at found
  · obtain ⟨number, -, rfl⟩ := Option.map_eq_some_iff.mp found
    unfold Shut
    rw [List.getLast?_concat]
    decide
  · split_ifs at found
    obtain ⟨number, -, rfl⟩ := Option.map_eq_some_iff.mp found
    exact shut_repr _

theorem shut_number {text kept : List Char} {low high : Nat}
    (found : ((parseSmallUint text low high).map fun n => n.repr.toList) = some kept) :
    Shut kept := by
  obtain ⟨number, -, rfl⟩ := Option.map_eq_some_iff.mp found
  exact shut_repr _

section Written

variable {isAlphanumeric : Char → Bool} {allowRemote : Bool}

/-- Outside of fonts presentation is shut. -/
theorem shut_presentational {tag k v kept : List Char} (other : tag ≠ "font".toList)
    (found : presentational isAlphanumeric tag k v = some kept) : Shut kept := by
  unfold presentational at found
  dsimp only at found
  rw [ite_eq_iff] at found
  rcases found with ⟨-, style⟩ | ⟨-, found⟩
  · exact shut_sanitizeStyle style
  rw [ite_eq_iff] at found
  rcases found with ⟨-, dir⟩ | ⟨-, found⟩
  · exact shut_keyword (by decide) dir
  rw [ite_eq_iff] at found
  rcases found with ⟨-, align⟩ | ⟨-, found⟩
  · exact shut_keyword (by decide) align
  rw [ite_eq_iff] at found
  rcases found with ⟨-, valign⟩ | ⟨-, found⟩
  · exact shut_keyword (by decide) valign
  rw [ite_eq_iff] at found
  rcases found with ⟨-, bgcolor⟩ | ⟨-, found⟩
  · exact shut_safeColor bgcolor
  rw [if_neg fun font => other font.2, if_neg fun font => other font.2,
    if_neg fun font => other font.2, ite_eq_iff] at found
  rcases found with ⟨-, length⟩ | ⟨-, found⟩
  · exact shut_safeLength length
  rw [ite_eq_iff] at found
  rcases found with ⟨-, border⟩ | ⟨-, found⟩
  · exact shut_number border
  rw [ite_eq_iff] at found
  rcases found with ⟨-, cells⟩ | ⟨-, found⟩
  · exact shut_number cells
  rw [ite_eq_iff] at found
  rcases found with ⟨-, span⟩ | ⟨-, found⟩
  · exact shut_number span
  · cases found

/-- Tags whose width survives. -/
def keepsWidth (tag : List Char) : Prop :=
  tag = "img".toList ∨ tag = "col".toList ∨ isTableTag tag

theorem keepsWidth_of_presentational {tag v kept : List Char}
    (found : presentational isAlphanumeric tag "width".toList v = some kept) :
    keepsWidth tag := by
  unfold presentational at found
  dsimp only at found
  rw [if_neg (by decide), if_neg (by decide), if_neg (by decide),
    if_neg fun valign => absurd valign.1 (by decide),
    if_neg fun bgcolor => absurd bgcolor.1 (by decide),
    if_neg fun color => absurd color.1 (by decide),
    if_neg fun face => absurd face.1 (by decide),
    if_neg fun size => absurd size.1 (by decide)] at found
  rcases of_ite_eq_some found with length | found
  · exact length.2
  rw [if_neg fun border => absurd border.1 (by decide),
    if_neg fun cells => absurd cells.1 (by decide),
    if_neg fun span => absurd span.1 (by decide)] at found
  cases found

/-- What an attribute leaves is presentation, or belongs to a link or an image. -/
theorem keptAttr_cases {name : List Char} {given kept : Attr}
    (member : kept ∈ keptAttr isAlphanumeric allowRemote name given) :
    kept.1 = given.1 ∧ presentational isAlphanumeric name given.1 given.2 = some kept.2 ∨
      (name = "a".toList ∨ name = "img".toList) ∧ kept.1 ≠ "width".toList := by
  have spelled (value : List Char) {key : String} (other : key.toList ≠ "width".toList)
      (inside : kept ∈ [(key.toList, value)]) : kept.1 ≠ "width".toList := by
    rwa [List.mem_singleton.mp inside]
  obtain ⟨k, v⟩ := given
  unfold keptAttr at member
  dsimp only at member
  split at member
  · cases member
  split at member
  · next value found =>
    rw [List.mem_singleton.mp member]
    exact .inl ⟨rfl, found⟩
  split at member
  · next link =>
    split at member
    · refine .inr ⟨.inl link.1, ?_⟩
      rcases List.mem_cons.mp member with href | rel
      · exact spelled _ (by decide) (List.mem_singleton.mpr href)
      · exact spelled _ (by decide) rel
    · cases member
  split at member
  · next image =>
    split at member
    · exact .inr ⟨.inr image.1, spelled _ (by decide) member⟩
    · cases member
  split at member
  · next image => exact .inr ⟨.inr image.1, spelled _ (by decide) member⟩
  · cases member

/-- On tags other than images no value is taken for an attribute. -/
theorem settled_keptAttrs {name : List Char} (other : name ≠ "img".toList)
    (attrs : List Attr) :
    Settled ((attrs.flatMap (keptAttr isAlphanumeric allowRemote name)).map escapedAttr) := by
  have origin {given : Attribute}
      (member : given ∈ (attrs.flatMap
        (keptAttr isAlphanumeric allowRemote name)).map escapedAttr) :
      ∃ raw kept, kept ∈ keptAttr isAlphanumeric allowRemote name raw ∧
        escapedAttr kept = given := by
    obtain ⟨kept, inside, same⟩ := List.mem_map.mp member
    obtain ⟨raw, -, here⟩ := List.mem_flatMap.mp inside
    exact ⟨raw, kept, here, same⟩
  by_cases wide : keepsWidth name
  · have font : name ≠ "font".toList ∧ name ≠ "a".toList := by
      rcases wide with image | rfl | table
      · exact absurd image other
      · decide
      · have all := @of_isOneOf _ (fun name =>
          decide (name ≠ "font".toList ∧ name ≠ "a".toList)) (by decide) name table
        exact of_decide_eq_true all
    refine .inr fun given member => ?_
    obtain ⟨raw, kept, here, rfl⟩ := origin member
    rcases keptAttr_cases here with ⟨-, found⟩ | ⟨link | image, -⟩
    · exact shut_escapeAttr (shut_presentational font.1 found)
    · exact absurd link font.2
    · exact absurd image other
  · refine .inl fun given member width => wide ?_
    obtain ⟨raw, kept, here, rfl⟩ := origin member
    change kept.1 = _ at width
    rcases keptAttr_cases here with ⟨same, found⟩ | ⟨-, away⟩
    · rw [← same, width] at found
      exact keepsWidth_of_presentational found
    · exact absurd width away

/-- A tag that is no cell, without a style and with no `=` in its values. -/
def Mark.inert : Mark → Bool
  | .opening name attrs _ =>
      !isCell name && attrs.all fun given =>
        given.1 != "style".toList && !given.2.contains '='
  | _ => true

theorem Mark.output_of_inert {mark : Mark} {tag : OpenTag} (safe : mark.Safe)
    (inert : mark.inert) (opens : mark.part = .opening tag) : tag.Output := by
  have clean := Mark.clean_part safe
  have tight := Mark.tight_part opens
  rw [opens] at clean
  cases mark with
  | text chars => cases opens
  | closing name => cases opens
  | opening name attrs selfClosing =>
      obtain rfl := Part.opening.inj opens
      simp only [Mark.inert, Bool.and_eq_true, Bool.not_eq_true', List.all_eq_true,
        bne_iff_ne, ne_eq, List.contains_eq_mem, decide_eq_false_iff_not] at inert
      refine ⟨clean, tight, fun _ => .inr ?_, fun _ => ⟨inert.1, ?_⟩⟩
      · intro given member
        obtain ⟨raw, inside, rfl⟩ := List.mem_map.mp member
        exact shut_escapeAttr (shut_of_notMem (inert.2 raw inside).2)
      · intro given member
        obtain ⟨raw, inside, rfl⟩ := List.mem_map.mp member
        exact (inert.2 raw inside).1

/-- A tag of a blocked image. -/
theorem output_badge {alt : List Char} {mark : Mark} {tag : OpenTag}
    (member : mark ∈ blockedImgPlaceholder alt) (opens : mark.part = .opening tag) :
    tag.Output := by
  have safe := safe_blockedImgPlaceholder alt mark member
  have badge : ∀ mark ∈ SVG_BADGE, mark.inert := by decide +kernel
  unfold blockedImgPlaceholder at member
  simp only [List.mem_append, List.mem_cons, List.not_mem_nil, or_false] at member
  rcases member with ((rfl | rfl) | inBadge) | rfl | rfl | rfl | rfl | rfl
  · exact Mark.output_of_inert safe (by decide) opens
  · have clean := Mark.clean_part safe
    rw [opens] at clean
    obtain rfl := Part.opening.inj opens
    refine ⟨clean, .inl rfl, fun _ => .inl fun given member => ?_, fun slash => absurd rfl slash⟩
    rw [List.mem_singleton.mp member]
    exact (by decide : "title".toList ≠ "width".toList)
  · exact Mark.output_of_inert safe (badge mark inBadge) opens
  · cases opens
  · exact Mark.output_of_inert safe (by decide) opens
  · cases opens
  · cases opens
  · cases opens

/-- Every tag of the output is one that the reader's rewrites expect. -/
theorem Mark.Written.output {mark : Mark} {tag : OpenTag}
    (written : mark.Written isAlphanumeric allowRemote) (opens : mark.part = .opening tag) :
    tag.Output := by
  have clean := Mark.clean_part written.safe
  rw [opens] at clean
  cases written with
  | text chars => cases opens
  | badge alt mark member => exact output_badge member opens
  | opening t allowed =>
      have tight := Mark.tight_part opens
      obtain rfl := Part.opening.inj opens
      exact ⟨clean, tight, fun other => settled_keptAttrs other t.attrs,
        fun slash => absurd rfl slash⟩
  | closing name allowed => cases opens

end Written

/-! ## The reader's rewrites -/

/-- What the reader rewrites of the sanitizer's output. -/
theorem rewritesOnly_iff
    (floats : Floats) (isAlphanumeric : Char → Bool) (raw : List Char) (allowRemote : Bool) :
    RewritesOnly floats (sanitize isAlphanumeric raw allowRemote).html ↔
      Fits (sanitize isAlphanumeric raw allowRemote).html := by
  have written := @written_sanitizeMarks isAlphanumeric allowRemote raw
  have shape : (sanitize isAlphanumeric raw allowRemote).html =
      partsHtml ((sanitizeMarks isAlphanumeric raw allowRemote).1.map Mark.part) :=
    marksHtml_eq _
  rw [shape]
  refine rewritesOnly_parts ?_ ?_
  · intro part member
    obtain ⟨mark, inside, rfl⟩ := List.mem_map.mp member
    exact Mark.clean_part (written mark inside).safe
  · intro tag member
    obtain ⟨mark, inside, same⟩ := List.mem_map.mp member
    exact (written mark inside).output same

namespace Sample

/-- Arithmetic on whole pixels. -/
def wholePixels : Floats where
  Px := Nat
  parsePx := parseUnsigned 10 (2 ^ 64)
  ceilPx := id
  displayPx px := px.repr.toList
  plain px char member := .inl (by
    have digit := Text.isDigit_of_mem_repr member
    simp [Char.isAlphanum, digit])
  channel digits _ := (parseUnsigned 10 (2 ^ 8) digits).getD 0
  alpha digits _ := (parseUnsigned 10 (2 ^ 8) digits).getD 0
  inverted color := 2 ^ 24 - 1 - color

/-- A table that says its width twice. -/
def twoWidths : List Char :=
  "<table width=\"600\" width=\"700\">".toList

/-- The second width stands in the layout once the first is gone. -/
theorem second_width_stays :
    ¬∀ raw, RewritesOnly wholePixels (sanitize Char.isAlphanum raw false).html := by
  intro all
  have measured : layoutWidth wholePixels
      (fitWidths wholePixels (sanitize Char.isAlphanum twoWidths false).html) = 700 := by
    decide +kernel
  have narrow := (all twoWidths).narrow
  rw [measured] at narrow
  cases narrow

end Sample

end Html
end Mailcore

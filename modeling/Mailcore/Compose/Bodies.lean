import Mailcore.Export.Tree
import Mailcore.Html.Inline
import Mailcore.Html.Plain

/-!
# The bodies of an outgoing mail

What the composer holds becomes a plain and an HTML part.  Plain typing arrives
as it was typed, whatever form it is handed over in.
-/

namespace Mailcore
namespace Compose

open Export (SendFormat)
open Html
open Text (asciiLower leftOf)

/-! ## Resolving -/

/-- Resolve the wanted format into a concrete wire shape. -/
def effectiveFormat (wanted : SendFormat) (needsHtml includePlain : Bool) : SendFormat :=
  match wanted with
  | .auto => if needsHtml = false then .plain else if includePlain then .multipart else .html
  | .html => if includePlain then .multipart else .html
  | .plain => .plain
  | .multipart => .multipart

section Bodies

variable (isAlphanumeric : Char → Bool)

/-- The HTML body that is set and not blank. -/
def explicitHtml (bodyHtml : Option (List Char)) : Option (List Char) :=
  (bodyHtml.map trim).filter (· ≠ [])

/-- Split composer input into a plain and an HTML part for the send format. -/
def resolveBodies (bodyText : List Char) (bodyHtml : Option (List Char)) (format : SendFormat) :
    List Char × Option (List Char) :=
  let explicit := (explicitHtml bodyHtml).map (sanitizeForSend isAlphanumeric)
  let textHoldsHtml := looksLikeHtml bodyText
  match format with
  | .plain =>
      let plain :=
        match explicit with
        | some h => htmlToText h
        | none => if textHoldsHtml then htmlToText bodyText else trim bodyText
      (if plain = [] then "(empty)".toList else plain, none)
  | .html =>
      let html :=
        match explicit with
        | some h => h
        | none =>
            if textHoldsHtml then sanitizeForSend isAlphanumeric bodyText
            else textToHtml bodyText
      let html := if trim html = [] then "<p>(empty)</p>".toList else html
      (htmlToText html, some html)
  | .multipart | .auto =>
      let html :=
        match explicit with
        | some h => h
        | none =>
            if textHoldsHtml then sanitizeForSend isAlphanumeric bodyText
            else if trim bodyText = [] then "<p>(empty)</p>".toList
            else textToHtml bodyText
      let plain :=
        if textHoldsHtml || explicit.isSome then htmlToText html else trim bodyText
      let plain := if trim plain = [] then htmlToText html else plain
      (if trim plain = [] then "(empty)".toList else plain, some html)

/-- What `enqueue_send_at` makes of the bodies: the wire shape, the parts, and the
images that travel with them. -/
structure Outgoing where
  format : SendFormat
  plain : List Char
  html : Option (List Char)
  inlines : List InlinePart

/-- The HTML that decides whether formatting is needed. -/
def htmlSource (bodyText : List Char) (bodyHtml : Option (List Char)) : Option (List Char) :=
  (explicitHtml bodyHtml).or (if looksLikeHtml bodyText then some bodyText else none)

/-- The composer's HTML with its `data:` images pulled out. -/
def splitInlineImages (fresh : Nat → List Char) (domain : List Char)
    (bodyHtml : Option (List Char)) :
    Except String (Option (List Char) × List InlinePart) :=
  match bodyHtml with
  | none => .ok (none, [])
  | some html => do
      let (html, parts) ← extractDataImages fresh domain html
      .ok (some html, parts)

/-- The body steps of `enqueue_send_at`. -/
def outgoingBodies (fresh : Nat → List Char) (domain bodyText : List Char)
    (bodyHtml : Option (List Char)) (wanted : SendFormat) (includePlain : Bool) :
    Except String Outgoing := do
  let (bodyHtml, inlines) ← splitInlineImages fresh domain bodyHtml
  let needsHtml := (htmlSource bodyText bodyHtml).any fun h =>
    needsHtmlFormatting (sanitizeForSend isAlphanumeric h)
  let format := effectiveFormat wanted needsHtml includePlain
  let (plain, html) := resolveBodies isAlphanumeric bodyText bodyHtml format
  .ok ⟨format, plain, html, inlines⟩

end Bodies

/-! ## Paragraphs that are handed over -/

theorem trim_paragraphs (blocks : List (List (List Char))) :
    trim (paragraphs blocks) = paragraphs blocks := by
  have ends (lines : List (List Char)) :
      (∃ rest, paragraph lines = '<' :: rest) ∧ ∃ front, paragraph lines = front ++ ['>'] := by
    refine ⟨⟨_, rfl⟩, "<p>".toList ++ ("<br>".toList.intercalate (lines.map escapeText) ++
      "</p".toList), ?_⟩
    rw [paragraph, List.append_assoc, List.append_assoc]
    rfl
  refine Text.strip_of_bare (fun char first => ?_) fun char last => ?_
  · cases blocks with
    | nil => cases first
    | cons lines blocks =>
        obtain ⟨rest, shape⟩ := (ends lines).1
        rw [paragraphs, List.flatMap_cons, shape] at first
        obtain rfl := Option.some.inj first
        decide
  · rcases List.eq_nil_or_concat blocks with rfl | ⟨blocks, lines, rfl⟩
    · cases last
    · obtain ⟨front, shape⟩ := (ends lines).2
      rw [paragraphs, List.concat_eq_append, List.flatMap_append, List.flatMap_singleton, shape,
        ← List.append_assoc, List.getLast?_concat] at last
      obtain rfl := Option.some.inj last
      decide

theorem looksLikeHtml_paragraphs {blocks : List (List (List Char))} (some_ : blocks ≠ []) :
    looksLikeHtml (paragraphs blocks) = true := by
  obtain ⟨lines, blocks, rfl⟩ := List.exists_cons_of_ne_nil some_
  refine List.any_eq_true.mpr ⟨"<p", List.mem_cons_self, decide_eq_true ?_⟩
  rw [paragraphs, List.flatMap_cons, Text.asciiLower_append, paragraph, Text.asciiLower_append]
  exact ⟨[], _, rfl⟩

theorem findImg_append {text : List Char} (plain : '<' ∉ text) {rest : List Char}
    (none_ : findImg rest = none) : findImg (text ++ rest) = none := by
  induction text with
  | nil => exact none_
  | cons char text inductionHypothesis =>
      rw [List.mem_cons, not_or] at plain
      have differs : char.toLower ≠ '<' := fun same =>
        plain.1 ((Text.toLower_eq_iff (by decide)).mp same).symm
      have apart : startsWith (asciiLower (char :: (text ++ rest))) "<img" = false := by
        change ('<' == char.toLower && _) = false
        rw [beq_eq_false_iff_ne.mpr differs.symm, Bool.false_and]
      rw [List.cons_append, findImg, apart, if_neg Bool.false_ne_true,
        inductionHypothesis plain.2]
      rfl

/-- A tag that is no image is passed. -/
theorem findImg_tag {tag : List Char} (known : tag ∈ ["<p>".toList, "</p>".toList, "<br>".toList])
    {rest : List Char} (none_ : findImg rest = none) : findImg (tag ++ rest) = none := by
  simp only [List.mem_cons, List.not_mem_nil, or_false] at known
  have behind (text : List Char) (plain : '<' ∉ text) (apart : ∀ more,
      startsWith (asciiLower ('<' :: (text ++ more))) "<img" = false) :
      findImg ('<' :: (text ++ rest)) = none := by
    rw [findImg, apart, if_neg Bool.false_ne_true, findImg_append plain none_]
    rfl
  rcases known with rfl | rfl | rfl
  · exact behind "p>".toList (by decide) fun more => rfl
  · exact behind "/p>".toList (by decide) fun more => rfl
  · exact behind "br>".toList (by decide) fun more => rfl

theorem findImg_lines (lines : List (List Char)) {rest : List Char}
    (none_ : findImg rest = none) :
    findImg ("<br>".toList.intercalate (lines.map escapeText) ++ rest) = none := by
  induction lines with
  | nil => exact none_
  | cons line lines inductionHypothesis =>
      cases lines with
      | nil =>
          rw [List.map_singleton, List.intercalate_singleton]
          exact findImg_append (lt_notMem_escapeText line) none_
      | cons next lines =>
          rw [List.map_cons, List.map_cons, List.intercalate_cons_cons, ← List.map_cons,
            List.append_assoc, List.append_assoc]
          exact findImg_append (lt_notMem_escapeText line)
            (findImg_tag (by simp) inductionHypothesis)

theorem findImg_paragraphs (blocks : List (List (List Char))) :
    findImg (paragraphs blocks) = none := by
  induction blocks with
  | nil => rfl
  | cons lines blocks inductionHypothesis =>
      rw [paragraphs, List.flatMap_cons, ← paragraphs, paragraph, List.append_assoc,
        List.append_assoc]
      exact findImg_tag (by simp) (findImg_lines lines (findImg_tag (by simp) inductionHypothesis))

/-- There is no image to pull out of paragraphs. -/
theorem extractDataImages_paragraphs (fresh : Nat → List Char) (domain : List Char)
    (blocks : List (List (List Char))) :
    extractDataImages fresh domain (paragraphs blocks) = .ok (paragraphs blocks, []) := by
  unfold extractDataImages
  split_ifs
  · rw [extractFrom, findImg_paragraphs]
  · rfl

/-- How the HTML of paragraphs comes to be sent: as the body, which is then found to
hold HTML, or as the composer's HTML beside a body that does not matter. -/
inductive Handed (blocks : List (List (List Char))) : List Char → Option (List Char) → Prop
  | body : Handed blocks (paragraphs blocks) none
  | editor (bodyText : List Char) : Handed blocks bodyText (some (paragraphs blocks))

/-- Whose lines arrive in each part. -/
structure Carries (out : Outgoing) (lines : List (List Char)) : Prop where
  plain : shownLines out.plain = lines
  html : ∀ html ∈ out.html, shownLines (htmlToText html) = lines

section Arrive

variable {isAlphanumeric : Char → Bool} {blocks : List (List (List Char))}

theorem paragraphs_ne_nil (some_ : blocks ≠ []) : paragraphs blocks ≠ [] := by
  obtain ⟨lines, blocks, rfl⟩ := List.exists_cons_of_ne_nil some_
  rw [paragraphs, List.flatMap_cons, paragraph, List.append_assoc]
  exact List.cons_ne_nil _ _

theorem explicitHtml_paragraphs (some_ : blocks ≠ []) :
    explicitHtml (some (paragraphs blocks)) = some (paragraphs blocks) := by
  rw [explicitHtml, Option.map_some, trim_paragraphs]
  exact Option.filter_some_pos (decide_eq_true (paragraphs_ne_nil some_))

/-- Paragraphs that fit into the caps of the pipeline. -/
structure Fits (blocks : List (List (List Char))) : Prop where
  lined : Lined blocks
  short : byteLen (paragraphs blocks) ≤ MAX_HTML_BYTES
  few : (blocks.flatMap paragraphText).count '\n' < MAX_TEXT_LINES

theorem Fits.read (fits : Fits blocks) :
    shownLines (htmlToText (paragraphs blocks)) = leftOf Outbox.isWhitespace blocks.flatten :=
  shownLines_htmlToText fits.lined
    (fits.short.trans (by decide : MAX_HTML_BYTES ≤ MAX_OUT_BYTES)) fits.few

theorem trim_ne_nil {text : List Char} (some_ : shownLines text ≠ []) : trim text ≠ [] := by
  intro blank
  have same : shownLines (trim text) = shownLines text := Text.pieces_strip (fun _ => id) text
  rw [blank] at same
  exact some_ (same.symm.trans Text.pieces_nil)

theorem sanitizeForSend_paragraphs (fits : Fits blocks) :
    sanitizeForSend isAlphanumeric (paragraphs blocks) = paragraphs blocks :=
  sanitize_paragraphs fits.short

theorem resolveBodies_paragraphs (fits : Fits blocks)
    (some_ : leftOf Outbox.isWhitespace blocks.flatten ≠ [])
    {bodyText : List Char} {bodyHtml : Option (List Char)}
    (handed : Handed blocks bodyText bodyHtml) (format : SendFormat) :
    shownLines (resolveBodies isAlphanumeric bodyText bodyHtml format).1 =
        leftOf Outbox.isWhitespace blocks.flatten ∧
      ∀ html ∈ (resolveBodies isAlphanumeric bodyText bodyHtml format).2,
        html = paragraphs blocks := by
  have nonempty : blocks ≠ [] := by
    rintro rfl
    exact some_ rfl
  have read := fits.read
  have kept : trim (htmlToText (paragraphs blocks)) ≠ [] := trim_ne_nil (read ▸ some_)
  have whole : htmlToText (paragraphs blocks) ≠ [] := by
    intro empty
    rw [empty] at kept
    exact kept rfl
  have solid := paragraphs_ne_nil nonempty
  have clean : sanitizeForSend isAlphanumeric (paragraphs blocks) = paragraphs blocks :=
    sanitizeForSend_paragraphs fits
  cases handed with
  | body =>
      have unset : explicitHtml none = none := rfl
      cases format <;>
        simp [resolveBodies, unset, looksLikeHtml_paragraphs nonempty, clean, trim_paragraphs,
          solid, whole, kept, read]
  | editor =>
      cases format <;>
        simp [resolveBodies, explicitHtml_paragraphs nonempty, clean, trim_paragraphs,
          solid, whole, kept, read]

/-- The lines of paragraphs arrive in every part, as plain text where the format is
left to the content. -/
theorem outgoingBodies_paragraphs (fits : Fits blocks)
    (some_ : leftOf Outbox.isWhitespace blocks.flatten ≠ [])
    {bodyText : List Char} {bodyHtml : Option (List Char)}
    (handed : Handed blocks bodyText bodyHtml) (fresh : Nat → List Char) (domain : List Char)
    (wanted : SendFormat) (includePlain : Bool) :
    ∃ out, outgoingBodies isAlphanumeric fresh domain bodyText bodyHtml wanted includePlain =
        .ok out ∧ out.format = effectiveFormat wanted false includePlain ∧ out.inlines = [] ∧
      Carries out (leftOf Outbox.isWhitespace blocks.flatten) := by
  have nonempty : blocks ≠ [] := by
    rintro rfl
    exact some_ rfl
  have split : splitInlineImages fresh domain bodyHtml = .ok (bodyHtml, []) := by
    cases handed with
    | body => rfl
    | editor =>
        rw [splitInlineImages, extractDataImages_paragraphs]
        rfl
  have source : htmlSource bodyText bodyHtml = some (paragraphs blocks) := by
    cases handed with
    | body =>
        rw [htmlSource, looksLikeHtml_paragraphs nonempty]
        rfl
    | editor =>
        rw [htmlSource, explicitHtml_paragraphs nonempty]
        rfl
  have clean : sanitizeForSend isAlphanumeric (paragraphs blocks) = paragraphs blocks :=
    sanitizeForSend_paragraphs fits
  have needs : ((htmlSource bodyText bodyHtml).any fun h =>
      needsHtmlFormatting (sanitizeForSend isAlphanumeric h)) = false := by
    rw [source, Option.any_some, clean, needsHtmlFormatting_paragraphs]
  let format := effectiveFormat wanted false includePlain
  let parts := resolveBodies isAlphanumeric bodyText bodyHtml format
  have made : outgoingBodies isAlphanumeric fresh domain bodyText bodyHtml wanted includePlain =
      .ok ⟨format, parts.1, parts.2, []⟩ := by
    rw [outgoingBodies, split]
    dsimp only [bind, Except.bind]
    rw [needs]
  obtain ⟨plain, html⟩ : shownLines parts.1 = _ ∧ ∀ html ∈ parts.2, html = paragraphs blocks :=
    resolveBodies_paragraphs fits some_ handed format
  refine ⟨_, made, rfl, rfl, plain, fun part member => ?_⟩
  rw [html part member]
  exact fits.read

/-! ## Text that is handed over as it is -/

theorem trim_textToHtml_ne_nil {text : List Char}
    (short : byteLen (textToHtml text) ≤ MAX_OUT_BYTES) : trim (textToHtml text) ≠ [] := by
  have cut : blocksOf text ≠ [] := by
    rw [blocksOf, Ne, List.map_eq_nil_iff]
    exact Text.segmentsIn_ne_nil _ _ _
  rw [textToHtml_of_le short, trim_paragraphs]
  exact paragraphs_ne_nil cut

theorem resolveBodies_text {text : List Char} (unmarked : looksLikeHtml text = false)
    (some_ : shownLines text ≠ []) (short : byteLen (textToHtml text) ≤ MAX_OUT_BYTES)
    (few : text.count '\n' + 2 < MAX_TEXT_LINES) (format : SendFormat) :
    shownLines (resolveBodies isAlphanumeric text none format).1 = shownLines text ∧
      ∀ html ∈ (resolveBodies isAlphanumeric text none format).2, html = textToHtml text := by
  have solid : trim text ≠ [] := trim_ne_nil some_
  have trimmed : shownLines (trim text) = shownLines text := Text.pieces_strip (fun _ => id) text
  have unset : explicitHtml none = none := rfl
  have read := shownLines_textToHtml short few
  have again : trim (trim text) = trim text := Text.strip_strip _ text
  cases format <;>
    simp [resolveBodies, unset, unmarked, solid, again, trimmed, read,
      trim_textToHtml_ne_nil short]

end Arrive

end Compose
end Mailcore

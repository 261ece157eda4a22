import Mailcore.Html.KeptText

/-!
# Plain text and HTML

HTML to plain text, plain text to HTML, and what is left of the lines of a text
that goes there and back.
-/

namespace Mailcore
namespace Html

open Text (asciiLower strip segments pieces leftOf splitOnceAt)

/-! ## HTML to plain text -/

/-- What real tags begin with. -/
def markupSigns : List String :=
  ["<p", "<div", "<br", "<a ", "<a>", "<b>", "<b ", "<i>", "<table", "<img", "<html", "<body",
    "<ul", "<ol", "<li", "<h1", "<h2", "<h3", "<blockquote"]

/-- Real tags, not stray `<3`. -/
def looksLikeHtml (text : List Char) : Bool :=
  markupSigns.any (containsText (asciiLower text))

/-- What an opening tag leaves in the text. -/
def openingText (name : List Char) : List Char :=
  if isOneOf ["br", "p", "div", "li", "tr", "h1", "h2", "h3", "h4", "h5", "h6",
      "blockquote"] name then ['\n']
  else if name = "hr".toList then "\n---\n".toList
  else []

/-- What a closing tag leaves in the text. -/
def closingText (name : List Char) : List Char :=
  if isOneOf ["p", "div", "li", "tr", "h1", "h2", "h3", "blockquote"] name then ['\n'] else []

/-- What one turn of the loop does: how many dropped elements are open behind it,
what it writes, and whether it looks at the length of the output. -/
def plainTurn (depth : Nat) : Item → Nat × List Char × Bool
  | .text chunk => (depth, if depth = 0 then decodeEntities chunk else [], true)
  | .markup none => (depth, [], false)
  | .markup (some t) =>
      if t.closing = false ∧ dropContentName t.name ∧ t.selfClosing = false ∧
          isOneOf ["head", "html", "body"] t.name = false then
        (if isOneOf ["script", "style"] t.name then depth + 1 else depth, [], false)
      else if t.closing ∧ isOneOf ["script", "style"] t.name then (depth - 1, [], false)
      else if 0 < depth then (depth, [], false)
      else (depth, if t.closing then closingText t.name else openingText t.name, true)

/-- The loop, which ends early where the output is too long. -/
def plainWalk : List Item → Nat → List Char → List Char
  | [], _, out => out
  | item :: items, depth, out =>
      let (depth, push, checks) := plainTurn depth item
      let out := out ++ push
      if checks && decide (MAX_OUT_BYTES < byteLen out) then out
      else plainWalk items depth out

/-- Lines of which every run of blank ones is one blank line. -/
def collapse : Nat → List (List Char) → List Char
  | _, [] => []
  | blanks, line :: lines =>
      if trim line = [] then
        (if blanks = 0 then ['\n'] else []) ++ collapse (blanks + 1) lines
      else line ++ '\n' :: collapse 0 lines

/-- The lines that are collapsed: the loop stops once it holds more than 4000. -/
def MAX_TEXT_LINES : Nat := 4001

/-- Collapse blank lines, trim trailing spaces of every line. -/
def tidy (out : List Char) : List Char :=
  trim (collapse 0 (((out.splitOn '\n').take MAX_TEXT_LINES).map
    (List.rdropWhile Outbox.isWhitespace)))

/-- Strip tags. -/
def htmlToText (html : List Char) : List Char :=
  tidy (plainWalk (scan html) 0 [])

/-! ## Plain text to HTML -/

/-- `para.replace('\n', "<br>")`. -/
def withBreaks (para : List Char) : List Char :=
  para.flatMap fun char => if char = '\n' then "<br>".toList else [char]

/-- The loop over the paragraphs, which ends early where the output is too
long. -/
def addParagraphs : Bool → List (List Char) → List Char → List Char
  | _, [], out => out
  | later, para :: paras, out =>
      let out := if later then out ++ "</p><p>".toList else out
      let out := out ++ withBreaks para
      if MAX_OUT_BYTES < byteLen out then out else addParagraphs true paras out

/-- Minimal safe HTML of a plain text. -/
def textToHtml (text : List Char) : List Char :=
  addParagraphs false (segments ['\n', '\n'] (escapeText text)) "<p>".toList ++ "</p>".toList

/-! ## Formatting -/

/-- Tags that always format; `span` does with attributes only. -/
def FORMATTING : List String :=
  ["b", "strong", "i", "em", "u", "ins", "s", "strike", "del", "a", "ul", "ol", "li",
    "blockquote", "h1", "h2", "h3", "h4", "h5", "h6", "img", "table", "pre", "code", "sub",
    "sup", "font", "hr", "dl", "dt", "dd", "span"]

/-- What stands behind a `<` is a tag that formats. -/
def formats (rest : List Char) : Bool :=
  let rest := if rest.head? = some '/' then rest.drop 1 else rest
  let name := rest.takeWhile Char.isAlphanum
  let next := (rest.dropWhile Char.isAlphanum).head?
  next.any (fun char => char = '>' || char = '/' || isWs char) && isOneOf FORMATTING name &&
    (name ≠ "span".toList || next ≠ some '>')

/-- A tag that formats stands somewhere in a lower-case text.  The source jumps
over the name of a tag, in which no `<` stands. -/
def formatsSomewhere : List Char → Bool
  | [] => false
  | char :: rest => (char = '<' && formats rest) || formatsSomewhere rest

/-- Whether sanitized composer HTML carries formatting that plain text cannot
express. -/
def needsHtmlFormatting (html : List Char) : Bool :=
  formatsSomewhere (asciiLower html)

/-- The lines of a text that hold anything, without the spaces around them. -/
def shownLines (text : List Char) : List (List Char) :=
  pieces Outbox.isWhitespace '\n' text

/-! ## Paragraphs -/

/-- A paragraph of lines. -/
def paragraph (lines : List (List Char)) : List Char :=
  "<p>".toList ++ ("<br>".toList.intercalate (lines.map escapeText) ++ "</p>".toList)

/-- The HTML of paragraphs. -/
def paragraphs (blocks : List (List (List Char))) : List Char :=
  blocks.flatMap paragraph

/-- The text of a paragraph, in lines of its own. -/
def paragraphText (lines : List (List Char)) : List Char :=
  '\n' :: (['\n'].intercalate lines ++ ['\n'])

def paragraphOpens : Item := .markup (some ⟨['p'], [], false, false⟩)

def paragraphCloses : Item := .markup (some ⟨['p'], [], true, false⟩)

def lineBreaks : Item := .markup (some ⟨['b', 'r'], [], false, false⟩)

/-- What the scanner finds in a line. -/
def lineItems (line : List Char) : List Item :=
  if line = [] then [] else [.text (escapeText line)]

/-- What it finds in a paragraph. -/
def paragraphItems (lines : List (List Char)) : List Item :=
  paragraphOpens :: ([lineBreaks].intercalate (lines.map lineItems) ++ [paragraphCloses])

theorem scan_paragraphOpens (rest : List Char) :
    scan ("<p>".toList ++ rest) = paragraphOpens :: scan rest := by
  exact scan_lt ('p' :: '>' :: rest)

theorem scan_paragraphCloses (rest : List Char) :
    scan ("</p>".toList ++ rest) = paragraphCloses :: scan rest :=
  scan_lt ('/' :: 'p' :: '>' :: rest)

theorem scan_lineBreaks (rest : List Char) :
    scan ("<br>".toList ++ rest) = lineBreaks :: scan rest :=
  scan_lt ('b' :: 'r' :: '>' :: rest)

theorem escapeText_eq_nil {text : List Char} : escapeText text = [] ↔ text = [] := by
  constructor
  · intro empty
    have read := decodeEntities_escapeText_append text []
    rw [List.append_nil, empty, decodeEntities_nil, List.append_nil] at read
    exact read.symm
  · rintro rfl
    rfl

theorem scan_line (line : List Char) {rest : List Char} (stops : ∀ char ∈ rest.head?, char = '<') :
    scan (escapeText line ++ rest) = lineItems line ++ scan rest := by
  unfold lineItems
  split_ifs with empty
  · rw [empty]
    rfl
  · rw [scan_text (fun same => empty (escapeText_eq_nil.mp same)) (lt_notMem_escapeText line) stops]
    rfl

theorem scan_lines (lines : List (List Char)) {rest : List Char}
    (stops : ∀ char ∈ rest.head?, char = '<') :
    scan ("<br>".toList.intercalate (lines.map escapeText) ++ rest) =
      [lineBreaks].intercalate (lines.map lineItems) ++ scan rest := by
  induction lines with
  | nil => rfl
  | cons line lines inductionHypothesis =>
      cases lines with
      | nil =>
          rw [List.map_singleton, List.intercalate_singleton, scan_line line stops,
            List.map_singleton, List.intercalate_singleton]
      | cons next lines =>
          rw [List.map_cons, List.map_cons, List.intercalate_cons_cons, List.append_assoc,
            List.append_assoc, ← List.map_cons, scan_line line (by simp), scan_lineBreaks,
            inductionHypothesis, List.map_cons, List.map_cons, List.map_cons,
            List.intercalate_cons_cons, List.append_assoc, List.append_assoc]
          rfl

theorem scan_paragraph (lines : List (List Char)) (rest : List Char) :
    scan (paragraph lines ++ rest) = paragraphItems lines ++ scan rest := by
  rw [paragraph, List.append_assoc, List.append_assoc, scan_paragraphOpens,
    scan_lines lines (by simp), scan_paragraphCloses]
  simp [paragraphItems]

theorem scan_paragraphs (blocks : List (List (List Char))) :
    scan (paragraphs blocks) = blocks.flatMap paragraphItems := by
  induction blocks with
  | nil => rfl
  | cons lines blocks inductionHypothesis =>
      rw [paragraphs, List.flatMap_cons, scan_paragraph, ← paragraphs, inductionHypothesis,
        List.flatMap_cons]

/-! ## The text of paragraphs -/

/-- The loop without its cap. -/
def plainWritten : List Item → Nat → List Char
  | [], _ => []
  | item :: items, depth =>
      (plainTurn depth item).2.1 ++ plainWritten items (plainTurn depth item).1

theorem plainWalk_of_le {items : List Item} {depth : Nat} {out : List Char}
    (short : byteLen (out ++ plainWritten items depth) ≤ MAX_OUT_BYTES) :
    plainWalk items depth out = out ++ plainWritten items depth := by
  induction items generalizing depth out with
  | nil => exact (List.append_nil out).symm
  | cons item items inductionHypothesis =>
      rw [plainWritten, ← List.append_assoc] at short ⊢
      have front : byteLen (out ++ (plainTurn depth item).2.1) ≤ MAX_OUT_BYTES := by
        rw [byteLen_append] at short
        omega
      rw [plainWalk]
      dsimp only
      rw [if_neg, inductionHypothesis short]
      rw [Bool.and_eq_true, decide_eq_true_eq]
      exact fun past => absurd front (Nat.not_le.mpr past.2)

theorem plainWritten_line (line : List Char) (items : List Item) :
    plainWritten (lineItems line ++ items) 0 = line ++ plainWritten items 0 := by
  unfold lineItems
  split_ifs with empty
  · rw [empty]
    rfl
  · have read := decodeEntities_escapeText_append line []
    rw [List.append_nil, decodeEntities_nil, List.append_nil] at read
    change decodeEntities (escapeText line) ++ plainWritten items 0 = _
    rw [read]

theorem plainWritten_lines (lines : List (List Char)) (items : List Item) :
    plainWritten ([lineBreaks].intercalate (lines.map lineItems) ++ items) 0 =
      ['\n'].intercalate lines ++ plainWritten items 0 := by
  induction lines with
  | nil => rfl
  | cons line lines inductionHypothesis =>
      cases lines with
      | nil =>
          rw [List.map_singleton, List.intercalate_singleton, plainWritten_line,
            List.intercalate_singleton]
      | cons next lines =>
          rw [List.map_cons, List.map_cons, List.intercalate_cons_cons, ← List.map_cons,
            List.append_assoc, List.append_assoc, plainWritten_line]
          have broken (rest : List Item) : plainWritten ([lineBreaks] ++ rest) 0 =
              '\n' :: plainWritten rest 0 := rfl
          rw [broken, inductionHypothesis, List.intercalate_cons_cons]
          simp

theorem plainWritten_paragraph (lines : List (List Char)) (items : List Item) :
    plainWritten (paragraphItems lines ++ items) 0 =
      paragraphText lines ++ plainWritten items 0 := by
  have opened (rest : List Item) : plainWritten (paragraphOpens :: rest) 0 =
      '\n' :: plainWritten rest 0 := rfl
  have closed : plainWritten (paragraphCloses :: items) 0 = '\n' :: plainWritten items 0 := rfl
  rw [paragraphItems, List.cons_append, opened, List.append_assoc, plainWritten_lines,
    List.singleton_append, closed]
  simp [paragraphText]

theorem plainWritten_paragraphs (blocks : List (List (List Char))) :
    plainWritten (scan (paragraphs blocks)) 0 = blocks.flatMap paragraphText := by
  rw [scan_paragraphs]
  induction blocks with
  | nil => rfl
  | cons lines blocks inductionHypothesis =>
      rw [List.flatMap_cons, plainWritten_paragraph, inductionHypothesis, List.flatMap_cons]

/-! ## Collapsing -/

/-- Collapsing lines keeps what they hold. -/
theorem shownLines_collapse {blanks : Nat} {lines : List (List Char)}
    (whole : ∀ line ∈ lines, '\n' ∉ line) :
    shownLines (collapse blanks lines) = leftOf Outbox.isWhitespace lines := by
  induction lines generalizing blanks with
  | nil => exact Text.pieces_nil
  | cons line lines inductionHypothesis =>
      obtain ⟨here, later⟩ := List.forall_mem_cons.mp whole
      have single : leftOf Outbox.isWhitespace (line :: lines) =
          leftOf Outbox.isWhitespace [line] ++ leftOf Outbox.isWhitespace lines :=
        Text.leftOf_append [line] lines
      rw [collapse, single]
      by_cases blank : trim line = []
      · have nothing : leftOf Outbox.isWhitespace [line] = [] := by
          rw [leftOf, List.map_singleton, ← trim, blank]
          rfl
        have skipped (rest : List Char) :
            shownLines ((if blanks = 0 then ['\n'] else []) ++ rest) = shownLines rest := by
          split_ifs
          · exact Text.pieces_mark_cons rest
          · rfl
        rw [if_pos blank, nothing, skipped, inductionHypothesis later, List.nil_append]
      · have alone : shownLines line = leftOf Outbox.isWhitespace [line] := by
          rw [shownLines, pieces, List.splitOn_eq_singleton here]
        rw [if_neg blank, shownLines, Text.pieces_append_cons, ← shownLines, alone,
          ← shownLines, inductionHypothesis later]

theorem shownLines_tidy {text : List Char} (few : text.count '\n' < MAX_TEXT_LINES) :
    shownLines (tidy text) = shownLines text := by
  have all : (text.splitOn '\n').take MAX_TEXT_LINES = text.splitOn '\n' := by
    refine List.take_of_length_le ?_
    rw [Text.length_splitOn]
    exact few
  have trimmed : leftOf Outbox.isWhitespace
      ((text.splitOn '\n').map (List.rdropWhile Outbox.isWhitespace)) = shownLines text := by
    refine Text.leftOf_congr ?_
    rw [List.map_map]
    exact List.map_congr_left fun line _ => Text.strip_rdropWhile _ line
  rw [tidy, shownLines, trim, Text.pieces_strip fun _ => id, ← shownLines, all,
    shownLines_collapse, trimmed]
  intro line member
  obtain ⟨piece, cut, rfl⟩ := List.mem_map.mp member
  exact fun inside => Text.notMem_of_mem_splitOn cut
    ((List.rdropWhile_prefix _ _).subset inside)

/-! ## There and back -/

theorem byteLen_escapeText_le (text : List Char) : byteLen text ≤ byteLen (escapeText text) := by
  induction text with
  | nil => exact Nat.le_refl _
  | cons char text inductionHypothesis =>
      have first : char.utf8Size ≤ byteLen (escapeTextChar char) := by
        unfold escapeTextChar
        split <;> simp [byteLen, Char.utf8Size]
      rw [byteLen_cons, escapeText, List.flatMap_cons, byteLen_append, ← escapeText]
      omega

theorem byteLen_lines_le (lines : List (List Char)) :
    byteLen (['\n'].intercalate lines) ≤
      byteLen ("<br>".toList.intercalate (lines.map escapeText)) := by
  induction lines with
  | nil => exact Nat.le_refl _
  | cons line lines inductionHypothesis =>
      have first := byteLen_escapeText_le line
      cases lines with
      | nil =>
          rw [List.map_singleton, List.intercalate_singleton, List.intercalate_singleton]
          exact first
      | cons next lines =>
          have breaks : byteLen ['\n'] ≤ byteLen "<br>".toList := by decide
          rw [List.map_cons, List.map_cons, List.intercalate_cons_cons,
            List.intercalate_cons_cons, ← List.map_cons]
          simp only [byteLen_append]
          omega

theorem byteLen_paragraphText_le (lines : List (List Char)) :
    byteLen (paragraphText lines) ≤ byteLen (paragraph lines) := by
  have within := byteLen_lines_le lines
  have marks : byteLen ['\n'] ≤ byteLen "<p>".toList ∧ byteLen ['\n'] ≤ byteLen "</p>".toList := by
    decide
  have shape : paragraphText lines = ['\n'] ++ (['\n'].intercalate lines ++ ['\n']) := rfl
  rw [shape, paragraph]
  simp only [byteLen_append]
  omega

theorem byteLen_text_le (blocks : List (List (List Char))) :
    byteLen (blocks.flatMap paragraphText) ≤ byteLen (paragraphs blocks) := by
  induction blocks with
  | nil => exact Nat.le_refl _
  | cons lines blocks inductionHypothesis =>
      have first := byteLen_paragraphText_le lines
      rw [paragraphs, List.flatMap_cons, List.flatMap_cons, byteLen_append, byteLen_append,
        ← paragraphs]
      omega

/-- The lines of paragraphs hold no line break. -/
def Lined (blocks : List (List (List Char))) : Prop :=
  ∀ lines ∈ blocks, ∀ line ∈ lines, '\n' ∉ line

theorem shownLines_intercalate {lines : List (List Char)} (whole : ∀ line ∈ lines, '\n' ∉ line) :
    shownLines (['\n'].intercalate lines) = leftOf Outbox.isWhitespace lines := by
  cases lines with
  | nil => exact Text.pieces_nil
  | cons line lines =>
      rw [shownLines, pieces, List.splitOn_intercalate _ whole (List.cons_ne_nil _ _)]

theorem shownLines_text {blocks : List (List (List Char))} (lined : Lined blocks) :
    shownLines (blocks.flatMap paragraphText) = leftOf Outbox.isWhitespace blocks.flatten := by
  induction blocks with
  | nil => exact Text.pieces_nil
  | cons lines blocks inductionHypothesis =>
      obtain ⟨here, later⟩ := List.forall_mem_cons.mp lined
      have read := shownLines_intercalate here
      rw [List.flatten_cons, Text.leftOf_append, ← inductionHypothesis later, ← read,
        List.flatMap_cons, paragraphText, shownLines, List.cons_append, Text.pieces_mark_cons,
        List.append_assoc, List.singleton_append, Text.pieces_append_cons]
      rfl

/-- The plain text of paragraphs holds their lines. -/
theorem shownLines_htmlToText {blocks : List (List (List Char))} (lined : Lined blocks)
    (short : byteLen (paragraphs blocks) ≤ MAX_OUT_BYTES)
    (few : (blocks.flatMap paragraphText).count '\n' < MAX_TEXT_LINES) :
    shownLines (htmlToText (paragraphs blocks)) = leftOf Outbox.isWhitespace blocks.flatten := by
  have written := plainWritten_paragraphs blocks
  have within : byteLen ([] ++ plainWritten (scan (paragraphs blocks)) 0) ≤ MAX_OUT_BYTES := by
    rw [List.nil_append, written]
    exact (byteLen_text_le blocks).trans short
  rw [htmlToText, plainWalk_of_le within, List.nil_append, written, shownLines_tidy few,
    shownLines_text lined]

/-- The paragraphs of a text, in lines. -/
def blocksOf (text : List Char) : List (List (List Char)) :=
  (segments ['\n', '\n'] text).map (List.splitOn '\n')

theorem separates_escapeText : Text.Separates '\n' escapeTextChar where
  same := rfl
  apart char differs := by
    unfold escapeTextChar
    split <;> simp [eq_comm, differs]

theorem escapeTextChar_ne_nil (char : Char) : escapeTextChar char ≠ [] := by
  unfold escapeTextChar
  split <;> simp

theorem withBreaks_escapeText (para : List Char) :
    withBreaks (escapeText para) = "<br>".toList.intercalate ((para.splitOn '\n').map escapeText) := by
  have cut : (escapeText para).splitOn '\n' = (para.splitOn '\n').map escapeText :=
    Text.splitOn_flatMap separates_escapeText para
  rw [withBreaks, Text.flatMap_eq_intercalate, cut]

/-- The loop without its cap. -/
theorem addParagraphs_of_le {paras : List (List Char)} {out : List Char}
    (short : byteLen (addParagraphs true paras out ++ "</p>".toList) ≤ MAX_OUT_BYTES) :
    addParagraphs true paras out =
      out ++ paras.flatMap fun para => "</p><p>".toList ++ withBreaks para := by
  induction paras generalizing out with
  | nil => exact (List.append_nil out).symm
  | cons para paras inductionHypothesis =>
      rw [addParagraphs] at short ⊢
      rw [if_pos rfl] at short ⊢
      by_cases past : MAX_OUT_BYTES < byteLen (out ++ "</p><p>".toList ++ withBreaks para)
      · rw [if_pos past, byteLen_append] at short
        omega
      · rw [if_neg past] at short ⊢
        rw [inductionHypothesis short, List.flatMap_cons, List.append_assoc, List.append_assoc,
          List.append_assoc]

/-- Closing and opening a paragraph between two is closing every one. -/
theorem flatMap_between (paras : List (List Char)) :
    (paras.flatMap fun para => "</p><p>".toList ++ para) ++ "</p>".toList =
      "</p>".toList ++ paras.flatMap fun para => "<p>".toList ++ (para ++ "</p>".toList) := by
  induction paras with
  | nil => rfl
  | cons para paras inductionHypothesis =>
      have tags : "</p><p>".toList = "</p>".toList ++ "<p>".toList := rfl
      rw [List.flatMap_cons, List.flatMap_cons, List.append_assoc, inductionHypothesis, tags]
      simp only [List.append_assoc]

/-- What is not cut off is paragraphs. -/
theorem textToHtml_of_le {text : List Char} (short : byteLen (textToHtml text) ≤ MAX_OUT_BYTES) :
    textToHtml text = paragraphs (blocksOf text) := by
  have cut : segments ['\n', '\n'] (escapeText text) =
      (segments ['\n', '\n'] text).map escapeText :=
    Text.segments_flatMap separates_escapeText escapeTextChar_ne_nil text
  rw [textToHtml, cut] at short ⊢
  rw [paragraphs, blocksOf]
  obtain ⟨para, paras, shape⟩ := List.exists_cons_of_ne_nil
    (Text.segmentsIn_ne_nil ['\n', '\n'] text.length text)
  rw [← segments] at shape
  rw [shape, List.map_cons, addParagraphs] at short ⊢
  rw [if_neg Bool.false_ne_true] at short ⊢
  have kept : byteLen ("<p>".toList ++ withBreaks (escapeText para)) ≤ MAX_OUT_BYTES := by
    by_contra past
    rw [if_pos (Nat.lt_of_not_le past), byteLen_append] at short
    omega
  rw [if_neg (Nat.not_lt.mpr kept)] at short ⊢
  have closing := flatMap_between (paras.map fun para => withBreaks (escapeText para))
  rw [List.flatMap_map, List.flatMap_map] at closing
  rw [addParagraphs_of_le short, List.flatMap_map, List.append_assoc, closing, List.map_cons,
    List.flatMap_cons, List.flatMap_map, paragraph, ← withBreaks_escapeText]
  simp only [List.append_assoc, paragraph, ← withBreaks_escapeText]

theorem lined_blocksOf (text : List Char) : Lined (blocksOf text) := by
  intro lines member line inside
  obtain ⟨para, -, rfl⟩ := List.mem_map.mp member
  exact Text.notMem_of_mem_splitOn inside

theorem leftOf_blocksOf (text : List Char) :
    leftOf Outbox.isWhitespace (blocksOf text).flatten = shownLines text := by
  rw [Text.leftOf_flatten, blocksOf, List.map_map]
  exact Text.pieces_segments text

/-- Every paragraph stands between two line breaks, as it did in the text. -/
theorem text_blocksOf (text : List Char) :
    (blocksOf text).flatMap paragraphText = '\n' :: (text ++ ['\n']) := by
  have joined (parts : List (List Char)) (some_ : parts ≠ []) :
      parts.flatMap (fun para => '\n' :: (para ++ ['\n'])) =
        '\n' :: (['\n', '\n'].intercalate parts ++ ['\n']) := by
    induction parts with
    | nil => exact absurd rfl some_
    | cons part parts inductionHypothesis =>
        cases parts with
        | nil => simp
        | cons next parts =>
            rw [List.flatMap_cons, inductionHypothesis (List.cons_ne_nil _ _),
              List.intercalate_cons_cons]
            simp
  have whole (para : List Char) : paragraphText (para.splitOn '\n') = '\n' :: (para ++ ['\n']) := by
    rw [paragraphText, List.intercalate_splitOn]
  have pieces := joined (segments ['\n', '\n'] text) (Text.segmentsIn_ne_nil _ _ _)
  rw [segments, Text.intercalate_segmentsIn] at pieces
  rw [blocksOf, List.flatMap_map, ← pieces]
  exact List.flatMap_congr fun para _ => whole para

/-- A text that goes to HTML and back keeps its lines. -/
theorem shownLines_textToHtml {text : List Char}
    (short : byteLen (textToHtml text) ≤ MAX_OUT_BYTES)
    (few : text.count '\n' + 2 < MAX_TEXT_LINES) :
    shownLines (htmlToText (textToHtml text)) = shownLines text := by
  have whole := textToHtml_of_le short
  rw [whole] at short ⊢
  rw [shownLines_htmlToText (lined_blocksOf text) short, leftOf_blocksOf]
  rw [text_blocksOf, List.count_cons_self, List.count_append, List.count_singleton_self]
  omega

/-! ## Paragraphs through the sanitizer -/

section Sanitized

variable {isAlphanumeric : Char → Bool} {allowRemote : Bool}

/-- What the sanitizer writes of a line. -/
def lineMarks (line : List Char) : List Mark :=
  if line = [] then [] else [.text line]

def paragraphMarks (lines : List (List Char)) : List Mark :=
  .opening ['p'] [] false ::
    ([Mark.opening ['b', 'r'] [] false].intercalate (lines.map lineMarks) ++ [.closing ['p']])

/-- Inside a paragraph. -/
def inParagraph : State :=
  ⟨false, [], [['p']]⟩

theorem written_line (line : List Char) (items : List Item) :
    written isAlphanumeric allowRemote (lineItems line ++ items) inParagraph =
      ((written isAlphanumeric allowRemote items inParagraph).1,
        lineMarks line ++ (written isAlphanumeric allowRemote items inParagraph).2) := by
  unfold lineItems lineMarks
  split_ifs with empty
  · rfl
  · have read := decodeEntities_escapeText_append line []
    rw [List.append_nil, decodeEntities_nil, List.append_nil] at read
    change (_, Mark.text (decodeEntities (escapeText line)) :: _) = _
    rw [read]
    rfl

theorem written_lines (lines : List (List Char)) (items : List Item) :
    written isAlphanumeric allowRemote
        ([lineBreaks].intercalate (lines.map lineItems) ++ items) inParagraph =
      ((written isAlphanumeric allowRemote items inParagraph).1,
        [Mark.opening ['b', 'r'] [] false].intercalate (lines.map lineMarks) ++
          (written isAlphanumeric allowRemote items inParagraph).2) := by
  induction lines with
  | nil => rfl
  | cons line lines inductionHypothesis =>
      cases lines with
      | nil =>
          rw [List.map_singleton, List.map_singleton, List.intercalate_singleton,
            List.intercalate_singleton, written_line]
      | cons next lines =>
          have broken (rest : List Item) :
              written isAlphanumeric allowRemote ([lineBreaks] ++ rest) inParagraph =
                ((written isAlphanumeric allowRemote rest inParagraph).1,
                  .opening ['b', 'r'] [] false ::
                    (written isAlphanumeric allowRemote rest inParagraph).2) := rfl
          rw [List.map_cons, List.map_cons, List.intercalate_cons_cons, ← List.map_cons,
            List.append_assoc, List.append_assoc, written_line, broken, inductionHypothesis]
          simp [List.intercalate_cons_cons]

theorem written_paragraph (lines : List (List Char)) (items : List Item) :
    written isAlphanumeric allowRemote (paragraphItems lines ++ items) .start =
      ((written isAlphanumeric allowRemote items .start).1,
        paragraphMarks lines ++ (written isAlphanumeric allowRemote items .start).2) := by
  have opened (rest : List Item) :
      written isAlphanumeric allowRemote (paragraphOpens :: rest) .start =
        ((written isAlphanumeric allowRemote rest inParagraph).1,
          .opening ['p'] [] false :: (written isAlphanumeric allowRemote rest inParagraph).2) :=
    rfl
  have closed : written isAlphanumeric allowRemote (paragraphCloses :: items) inParagraph =
      ((written isAlphanumeric allowRemote items .start).1,
        .closing ['p'] :: (written isAlphanumeric allowRemote items .start).2) := rfl
  rw [paragraphItems, List.cons_append, opened, List.append_assoc, written_lines,
    List.singleton_append, closed]
  simp [paragraphMarks]

theorem marksHtml_append (first second : List Mark) :
    marksHtml (first ++ second) = marksHtml first ++ marksHtml second :=
  List.flatMap_append

theorem marksHtml_lines (lines : List (List Char)) :
    marksHtml ([Mark.opening ['b', 'r'] [] false].intercalate (lines.map lineMarks)) =
      "<br>".toList.intercalate (lines.map escapeText) := by
  have single (line : List Char) : marksHtml (lineMarks line) = escapeText line := by
    unfold lineMarks
    split_ifs with empty
    · rw [empty]
      rfl
    · exact List.append_nil _
  induction lines with
  | nil => rfl
  | cons line lines inductionHypothesis =>
      cases lines with
      | nil =>
          rw [List.map_singleton, List.map_singleton, List.intercalate_singleton,
            List.intercalate_singleton, single]
      | cons next lines =>
          rw [List.map_cons, List.map_cons, List.intercalate_cons_cons, ← List.map_cons,
            marksHtml_append, marksHtml_append, single, inductionHypothesis, List.map_cons,
            List.map_cons, List.map_cons, List.intercalate_cons_cons]
          rfl

theorem marksHtml_paragraph (lines : List (List Char)) :
    marksHtml (paragraphMarks lines) = paragraph lines := by
  have opened (marks : List Mark) :
      marksHtml (.opening ['p'] [] false :: marks) = "<p>".toList ++ marksHtml marks := rfl
  have closed : marksHtml [.closing ['p']] = "</p>".toList := rfl
  rw [paragraphMarks, opened, marksHtml_append, marksHtml_lines, closed, paragraph]

theorem written_paragraphs (blocks : List (List (List Char))) :
    written isAlphanumeric allowRemote (scan (paragraphs blocks)) .start =
      (.start, blocks.flatMap paragraphMarks) := by
  rw [scan_paragraphs]
  induction blocks with
  | nil => rfl
  | cons lines blocks inductionHypothesis =>
      rw [List.flatMap_cons, written_paragraph, inductionHypothesis, List.flatMap_cons]

theorem marksHtml_paragraphs (blocks : List (List (List Char))) :
    marksHtml (blocks.flatMap paragraphMarks) = paragraphs blocks := by
  induction blocks with
  | nil => rfl
  | cons lines blocks inductionHypothesis =>
      rw [List.flatMap_cons, marksHtml_append, inductionHypothesis, marksHtml_paragraph,
        paragraphs, paragraphs, List.flatMap_cons]

/-- The sanitizer leaves paragraphs as they are. -/
theorem sanitize_paragraphs {blocks : List (List (List Char))}
    (short : byteLen (paragraphs blocks) ≤ MAX_HTML_BYTES) :
    (sanitize isAlphanumeric (paragraphs blocks) allowRemote).html = paragraphs blocks := by
  have whole : uncapped isAlphanumeric allowRemote (paragraphs blocks) =
      blocks.flatMap paragraphMarks := by
    rw [uncapped, written_paragraphs]
    exact List.append_nil _
  have caps : MAX_HTML_BYTES ≤ MAX_OUT_BYTES := by decide
  have under : UnderCaps isAlphanumeric allowRemote (paragraphs blocks) := by
    refine ⟨short, ?_⟩
    rw [whole, outLen, marksHtml_paragraphs]
    exact short.trans caps
  change marksHtml (sanitizeMarks isAlphanumeric (paragraphs blocks) allowRemote).1 = _
  rw [sanitizeMarks_of_underCaps under, whole, marksHtml_paragraphs]

end Sanitized

/-! ## Paragraphs are no formatting -/

theorem formatsSomewhere_append {text : List Char} (plain : '<' ∉ text) (rest : List Char) :
    formatsSomewhere (text ++ rest) = formatsSomewhere rest := by
  induction text with
  | nil => rfl
  | cons char text inductionHypothesis =>
      rw [List.mem_cons, not_or] at plain
      rw [List.cons_append, formatsSomewhere, inductionHypothesis plain.2,
        decide_eq_false fun same => plain.1 same.symm, Bool.false_and, Bool.false_or]

theorem lt_notMem_asciiLower (text : List Char) : '<' ∉ asciiLower (escapeText text) := by
  rw [Text.mem_asciiLower (by decide)]
  exact lt_notMem_escapeText text

theorem formatsSomewhere_lines (lines : List (List Char)) (rest : List Char) :
    formatsSomewhere (asciiLower ("<br>".toList.intercalate (lines.map escapeText)) ++ rest) =
      formatsSomewhere rest := by
  induction lines with
  | nil => rfl
  | cons line lines inductionHypothesis =>
      cases lines with
      | nil =>
          rw [List.map_singleton, List.intercalate_singleton,
            formatsSomewhere_append (lt_notMem_asciiLower line)]
      | cons next lines =>
          have broken (rest : List Char) :
              formatsSomewhere (asciiLower "<br>".toList ++ rest) = formatsSomewhere rest := rfl
          rw [List.map_cons, List.map_cons, List.intercalate_cons_cons, ← List.map_cons,
            Text.asciiLower_append, Text.asciiLower_append, List.append_assoc,
            List.append_assoc, formatsSomewhere_append (lt_notMem_asciiLower line), broken,
            inductionHypothesis]

/-- Plain typing never counts as formatting. -/
theorem needsHtmlFormatting_paragraphs (blocks : List (List (List Char))) :
    needsHtmlFormatting (paragraphs blocks) = false := by
  rw [needsHtmlFormatting]
  induction blocks with
  | nil => rfl
  | cons lines blocks inductionHypothesis =>
      have opened (rest : List Char) :
          formatsSomewhere (asciiLower "<p>".toList ++ rest) = formatsSomewhere rest := rfl
      have closed (rest : List Char) :
          formatsSomewhere (asciiLower "</p>".toList ++ rest) = formatsSomewhere rest := rfl
      rw [paragraphs, List.flatMap_cons, ← paragraphs, Text.asciiLower_append, paragraph,
        Text.asciiLower_append, Text.asciiLower_append, List.append_assoc, List.append_assoc,
        opened, formatsSomewhere_lines, closed, inductionHypothesis]

end Html
end Mailcore

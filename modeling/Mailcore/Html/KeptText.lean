import Mailcore.Html.SafeMarks

/-!
# The text that is kept

Below the caps, and where the scanner ends every tag and comment where HTML ends
it, the output shows the text that HTML shows.
-/

namespace Mailcore
namespace Html

open Markup

/-! ## The text of a document -/

def dropMarkup : Option Tag → List (List Char) → List (List Char)
  | none, dropping => dropping
  | some t, dropping => dropTag t dropping

/-- The text that the items of the scanner show. -/
def shownItems : List (List Char) → List Item → List Char
  | _, [] => []
  | dropping, .text chunk :: items =>
      (if dropText chunk dropping = [] then decodeEntities chunk else []) ++
        shownItems (dropText chunk dropping) items
  | dropping, .markup tag :: items => shownItems (dropMarkup tag dropping) items

/-- The dropped elements behind a start or end tag, innermost first.  A tag that
cannot stand in a head ends it. -/
def dropElement (name : List Char) (closing : Bool) (dropping : List (List Char)) :
    List (List Char) :=
  let dropping :=
    if dropping.head? = some "head".toList ∧ endsHead name closing then dropping.drop 1
    else dropping
  if dropContentName name = false then dropping
  else if closing then closeTo name dropping
  else name :: dropping

/-- The dropped elements behind a token. -/
def dropToken : Token → List (List Char) → List (List Char)
  | .start name _, dropping => dropElement name false dropping
  | .stop name, dropping => dropElement name true dropping
  | .text chunk, dropping => dropText chunk dropping
  | .raw _, dropping => dropping
  | .comment, dropping => dropping

/-- The text outside comments and dropped elements: decoded, unless it is raw. -/
def shownText : List (List Char) → List Token → List Char
  | _, [] => []
  | dropping, .text chunk :: tokens =>
      (if dropText chunk dropping = [] then decodeEntities chunk else []) ++
        shownText (dropText chunk dropping) tokens
  | dropping, .raw chunk :: tokens =>
      (if dropping = [] then chunk else []) ++ shownText dropping tokens
  | dropping, .start name selfClosing :: tokens =>
      shownText (dropToken (.start name selfClosing) dropping) tokens
  | dropping, .stop name :: tokens => shownText (dropToken (.stop name) dropping) tokens
  | dropping, .comment :: tokens => shownText dropping tokens

/-- The text of a document without tags, and without what stands inside the
placeholder of a blocked image. -/
def textOf : Bool → List Token → List Char
  | _, [] => []
  | inBadge, .start name _ :: tokens =>
      textOf (inBadge || name = "details".toList) tokens
  | inBadge, .stop name :: tokens => textOf (inBadge && name ≠ "details".toList) tokens
  | inBadge, .text chunk :: tokens =>
      (if inBadge then [] else decodeEntities chunk) ++ textOf inBadge tokens
  | inBadge, .raw chunk :: tokens =>
      (if inBadge then [] else chunk) ++ textOf inBadge tokens
  | inBadge, .comment :: tokens => textOf inBadge tokens

/-! ## The text of marks -/

def marksText : Bool → List Mark → List Char
  | _, [] => []
  | inBadge, .text chars :: marks =>
      (if inBadge then [] else chars) ++ marksText inBadge marks
  | inBadge, .opening name _ _ :: marks =>
      marksText (inBadge || name = "details".toList) marks
  | inBadge, .closing name :: marks =>
      marksText (inBadge && name ≠ "details".toList) marks

theorem textOf_textTokens (inBadge : Bool) (run : List Char) (tokens : List Token) :
    textOf inBadge (textTokens run ++ tokens) =
      (if inBadge then [] else decodeEntities run) ++ textOf inBadge tokens := by
  unfold textTokens
  split
  · next empty =>
    rw [empty]
    cases inBadge <;> rfl
  · rfl

/-- HTML finds the text of the marks. -/
theorem textOf_tokens
    {marks : List Mark} (safe : ∀ mark ∈ marks, mark.Safe) (inBadge : Bool) :
    textOf inBadge (tokens (marksHtml marks)) = marksText inBadge marks := by
  induction marks generalizing inBadge with
  | nil => rfl
  | cons mark marks inductionHypothesis =>
      have first := safe mark List.mem_cons_self
      have others := inductionHypothesis fun other member =>
        safe other (List.mem_cons_of_mem _ member)
      have split : marksHtml (mark :: marks) = mark.html ++ marksHtml marks :=
        List.flatMap_cons
      rw [split]
      cases mark with
      | text chars =>
          obtain ⟨run, tail, alone, together⟩ :=
            tokens_escapeText chars (marksHtml marks)
          have behind := others inBadge
          rw [alone, textOf_textTokens] at behind
          rw [Mark.html, together, textOf_textTokens, marksText, ← behind,
            decodeEntities_escapeText_append]
          cases inBadge
          · exact List.append_assoc _ _ _
          · rfl
      | opening name attrs selfClosing =>
          rw [tokens_opening first.1 first.2]
          exact others _
      | closing name =>
          rw [tokens_closing first]
          exact others _

/-! ## Without caps -/

section Written

variable (isAlphanumeric : Char → Bool) (allowRemote : Bool)

/-- The loop without its cap. -/
def written : List Item → State → State × List Mark
  | [], state => (state, [])
  | item :: items, state =>
      let turn := turn isAlphanumeric allowRemote state item
      let (last, marks) := written items turn.state
      (last, turn.pushes.flatten ++ marks)

/-- The marks of the output without its cap. -/
def uncapped (raw : List Char) : List Mark :=
  let (state, marks) := written isAlphanumeric allowRemote (scan raw) .start
  marks ++ state.opened.map .closing

/-- An input that neither the cap on the input nor that on the output reaches. -/
structure UnderCaps (raw : List Char) : Prop where
  input : byteLen raw ≤ MAX_HTML_BYTES
  output : outLen (uncapped isAlphanumeric allowRemote raw) ≤ MAX_OUT_BYTES

variable {isAlphanumeric : Char → Bool} {allowRemote : Bool}

theorem truncateOnCharBoundary_of_le {max : Nat} {text : List Char}
    (short : byteLen text ≤ max) : truncateOnCharBoundary max text = text := by
  induction text generalizing max with
  | nil => rfl
  | cons char text inductionHypothesis =>
      have length : byteLen (char :: text) = char.utf8Size + byteLen text := rfl
      rw [truncateOnCharBoundary, if_pos (by omega),
        inductionHypothesis (by omega)]

theorem outLen_append (first second : List Mark) :
    outLen (first ++ second) = outLen first + outLen second := by
  unfold outLen byteLen marksHtml
  rw [List.flatMap_append, List.map_append, List.sum_append]

theorem pushCapped_of_le {out push : List Mark}
    (short : outLen (out ++ push) ≤ MAX_OUT_BYTES) :
    pushCapped out push = out ++ push := by
  rw [outLen_append] at short
  unfold pushCapped
  rw [if_neg]
  omega

theorem pushes_of_le {pushes : List (List Mark)} {out : List Mark}
    (short : outLen (out ++ pushes.flatten) ≤ MAX_OUT_BYTES) :
    pushes.foldl pushCapped out = out ++ pushes.flatten := by
  induction pushes generalizing out with
  | nil => exact (List.append_nil out).symm
  | cons push pushes inductionHypothesis =>
      rw [List.flatten_cons, ← List.append_assoc] at short ⊢
      have first : pushCapped out push = out ++ push := by
        refine pushCapped_of_le ?_
        rw [outLen_append] at short
        omega
      rw [List.foldl_cons, first, inductionHypothesis short]

/-- The cap does not show in a walk whose output stays under it. -/
theorem walk_of_le {items : List Item} {state : State} {out : List Mark}
    (short : outLen (out ++ (written isAlphanumeric allowRemote items state).2) ≤
      MAX_OUT_BYTES) :
    walk isAlphanumeric allowRemote items state out =
      ((written isAlphanumeric allowRemote items state).1,
        out ++ (written isAlphanumeric allowRemote items state).2) := by
  induction items generalizing state out with
  | nil => exact Prod.ext rfl (List.append_nil out).symm
  | cons item items inductionHypothesis =>
      rw [written] at short ⊢
      dsimp only at short ⊢
      rw [← List.append_assoc] at short ⊢
      have front : outLen (out ++ (turn isAlphanumeric allowRemote state
          item).pushes.flatten) ≤ MAX_OUT_BYTES := by
        rw [outLen_append] at short
        omega
      rw [walk, pushes_of_le front, if_neg]
      · exact inductionHypothesis short
      · rw [Bool.and_eq_true, decide_eq_true_eq]
        omega

theorem closeAll_of_le {names : List (List Char)} {out : List Mark}
    (short : outLen (out ++ names.map .closing) ≤ MAX_OUT_BYTES) :
    closeAll names out = out ++ names.map .closing := by
  induction names generalizing out with
  | nil => exact (List.append_nil out).symm
  | cons name names inductionHypothesis =>
      rw [List.map_cons, List.append_cons] at short ⊢
      have front : outLen (out ++ [.closing name]) ≤ MAX_OUT_BYTES := by
        rw [outLen_append] at short
        omega
      rw [closeAll, if_neg, pushCapped_of_le front, inductionHypothesis short]
      rw [outLen_append] at front
      omega

/-- Under the caps the output is what is written without them. -/
theorem sanitizeMarks_of_underCaps {raw : List Char}
    (under : UnderCaps isAlphanumeric allowRemote raw) :
    (sanitizeMarks isAlphanumeric raw allowRemote).1 =
      uncapped isAlphanumeric allowRemote raw := by
  have short := under.output
  unfold uncapped at short ⊢
  dsimp only at short ⊢
  have front : outLen ([] ++ (written isAlphanumeric allowRemote (scan raw) .start).2) ≤
      MAX_OUT_BYTES := by
    rw [outLen_append] at short
    rw [List.nil_append]
    omega
  unfold sanitizeMarks
  dsimp only
  rw [truncateOnCharBoundary_of_le under.input, walk_of_le front, List.nil_append]
  exact closeAll_of_le short

/-! ## The text of the output -/

theorem dropping_turn (state : State) (item : Item) :
    (turn isAlphanumeric allowRemote state item).state.dropping =
      match item with
      | .text chunk => dropText chunk state.dropping
      | .markup tag => dropMarkup tag state.dropping := by
  cases item with
  | text chunk => rfl
  | markup tag =>
      cases tag with
      | none => rfl
      | some t =>
          change (tagTurn isAlphanumeric allowRemote t state).state.dropping =
            dropTag t state.dropping
          unfold tagTurn
          dsimp only
          split_ifs
          · rfl
          · rfl
          · rfl
          · unfold openTag
            dsimp only
            split
            · split <;> rfl
            · split <;> rfl

/-- No allowed tag is taken for a placeholder. -/
theorem allowed_ne_details {name : List Char} (allowed : allowedTag name) :
    name ≠ "details".toList := by
  rintro rfl
  exact absurd allowed (by decide)

theorem marksText_closing {names : List (List Char)}
    (named : ∀ name ∈ names, allowedTag name) (marks : List Mark) :
    marksText false (names.map Mark.closing ++ marks) = marksText false marks := by
  induction names with
  | nil => rfl
  | cons name names inductionHypothesis =>
      exact inductionHypothesis fun other member =>
        named other (List.mem_cons_of_mem _ member)

theorem marksText_badge (alt : List Char) (marks : List Mark) :
    marksText false (blockedImgPlaceholder alt ++ marks) = marksText false marks := by
  rfl

/-- What a turn adds to the text of the output. -/
theorem marksText_turn {state : State} (named : state.Named) (item : Item)
    (marks : List Mark) :
    marksText false ((turn isAlphanumeric allowRemote state item).pushes.flatten ++
        marks) =
      (match item with
        | .text chunk =>
            if dropText chunk state.dropping = [] then decodeEntities chunk else []
        | .markup _ => []) ++ marksText false marks := by
  cases item with
  | text chunk =>
      rw [turn]
      dsimp only
      split <;> rfl
  | markup tag =>
      have wrote : Wrote isAlphanumeric allowRemote state tag _ := wrote_turn state tag
      generalize turn isAlphanumeric allowRemote state (.markup tag) = turned at wrote
      cases wrote with
      | nothing hadRemote dropping => rfl
      | badge t hadRemote dropping alt => exact marksText_badge alt marks
      | opens t hadRemote dropping allowed =>
          change marksText (false || t.name = "details".toList) marks = _
          rw [decide_eq_false (allowed_ne_details allowed)]
          rfl
      | closes t dropping allowed full =>
          dsimp only
          rw [flatten_map_closing]
          exact marksText_closing
            (fun name popped => (named name (mem_of_mem_poppedBy popped)).1) marks

/-- The text that is written is the text the scanner shows. -/
theorem marksText_written {items : List Item} {state : State} (named : state.Named) :
    let (last, marks) := written isAlphanumeric allowRemote items state
    marksText false (marks ++ last.opened.map .closing) =
      shownItems state.dropping items := by
  induction items generalizing state with
  | nil =>
      have closed := marksText_closing (fun name member => (named name member).1) []
      rw [List.append_nil] at closed
      exact closed
  | cons item items inductionHypothesis =>
      have turned : (turn isAlphanumeric allowRemote state item).Sound
          isAlphanumeric allowRemote := sound_turn named item
      have others := inductionHypothesis turned.named
      rw [written]
      dsimp only at others ⊢
      rw [List.append_assoc, marksText_turn named, others, dropping_turn]
      cases item with
      | text chunk => rfl
      | markup tag => rfl

end Written

/-! ## Where the scanner cuts -/

theorem scanFrom_eq (skipped : Nat) (text : List Char) :
    scanFrom skipped text = scan (text.drop skipped) := by
  induction skipped generalizing text with
  | zero => rfl
  | succ skipped inductionHypothesis =>
      cases text with
      | nil => rfl
      | cons char text => exact inductionHypothesis text

theorem scan_lt (rest : List Char) :
    scan ('<' :: rest) = .markup (parseTag rest).1 :: scan (parseTag rest).2 := by
  rw [scan, scanFrom, if_pos rfl, scanFrom_eq, drop_of_suffix (parseTag_suffix rest)]

theorem scan_text
    {run rest : List Char} (nonempty : run ≠ []) (plain : '<' ∉ run)
    (stops : ∀ char ∈ rest.head?, char = '<') :
    scan (run ++ rest) = .text run :: scan rest := by
  cases run with
  | nil => exact absurd rfl nonempty
  | cons char run =>
      have differs : char ≠ '<' := fun same => plain (same ▸ List.mem_cons_self)
      have whole : (run ++ rest).takeWhile (· != '<') = run :=
        takeWhile_run (fun member => plain (List.mem_cons_of_mem _ member)) stops
      rw [List.cons_append, scan, scanFrom, if_neg differs, whole, scanFrom_eq,
        List.drop_left]

/-- The scanner passes some text without showing any of it, and leaves so many
elements dropped. -/
inductive Passes (behind : List Char) :
    List (List Char) → List Char → List (List Char) → Prop
  | here (dropping : List (List Char)) : Passes behind dropping behind dropping
  | text {dropping after : List (List Char)} {run rest : List Char}
      (nonempty : run ≠ []) (plain : '<' ∉ run)
      (stops : ∀ char ∈ rest.head?, char = '<')
      (hidden : dropText run dropping ≠ [])
      (passes : Passes behind (dropText run dropping) rest after) :
      Passes behind dropping (run ++ rest) after
  | tag {dropping after : List (List Char)} {rest next : List Char} {tag : Option Tag}
      (cut : parseTag rest = (tag, next))
      (passes : Passes behind (dropMarkup tag dropping) next after) :
      Passes behind dropping ('<' :: rest) after

/-- From here on the scanner ends every tag and comment where HTML ends it, and
drops the same elements.  It passes the content of an element that is raw text as
its own markup, and has to come out at the end tag. -/
inductive Reads : List (List Char) → List (List Char) → List Char → Prop
  | done (dropping dropped : List (List Char)) : Reads dropping dropped []
  | text {dropping : List (List Char)} {run rest : List Char}
      (nonempty : run ≠ []) (plain : '<' ∉ run)
      (stops : ∀ char ∈ rest.head?, char = '<')
      (reads : Reads (dropText run dropping) (dropText run dropping) rest) :
      Reads dropping dropping (run ++ rest)
  | tag {dropping dropped : List (List Char)} {rest next : List Char}
      {token : Token} {tag : Option Tag}
      (found : markup rest = some (token, next)) (cut : parseTag rest = (tag, next))
      (same : dropMarkup tag dropping = dropToken token dropped)
      (cooked : rawBehind token next = ([], next))
      (reads : Reads (dropMarkup tag dropping) (dropMarkup tag dropping) next) :
      Reads dropping dropped ('<' :: rest)
  | hidden {dropping dropped after : List (List Char)}
      {rest next raw behind : List Char} {token : Token} {tag : Option Tag}
      (found : markup rest = some (token, next)) (cut : parseTag rest = (tag, next))
      (same : dropMarkup tag dropping = dropToken token dropped)
      (inside : dropToken token dropped ≠ [])
      (content : rawBehind token next = ([.raw raw], behind))
      (passes : Passes behind (dropMarkup tag dropping) next after)
      (reads : Reads after (dropToken token dropped) behind) :
      Reads dropping dropped ('<' :: rest)
  | shown {dropping dropped : List (List Char)}
      {rest next raw behind : List Char} {token : Token} {tag : Option Tag}
      (found : markup rest = some (token, next)) (cut : parseTag rest = (tag, next))
      (none_ : dropMarkup tag dropping = []) (same : dropToken token dropped = [])
      (content : rawBehind token next = ([.raw raw], behind))
      (plain : '<' ∉ raw) (literal : decodeEntities raw = raw)
      (reads : Reads [] [] behind) :
      Reads dropping dropped ('<' :: rest)

/-- Nothing is shown on the way. -/
theorem shownItems_of_passes
    {behind text : List Char} {dropping after : List (List Char)}
    (passes : Passes behind dropping text after) :
    shownItems dropping (scan text) = shownItems after (scan behind) := by
  induction passes with
  | here dropping => rfl
  | text nonempty plain stops hidden passes inductionHypothesis =>
      rw [scan_text nonempty plain stops, shownItems, if_neg hidden, List.nil_append,
        inductionHypothesis]
  | tag cut passes inductionHypothesis =>
      rw [scan_lt, cut]
      exact inductionHypothesis

theorem shownText_cons_markup
    {rest next : List Char} {token : Token} (found : markup rest = some (token, next))
    (dropped : List (List Char)) (tokens : List Token) :
    shownText dropped (token :: tokens) = shownText (dropToken token dropped) tokens := by
  rcases markup_cases found with ⟨name, selfClosing, rfl⟩ | ⟨name, rfl⟩ | rfl
  · rfl
  · rfl
  · rfl

/-- Where the scanner cuts the text as HTML does, it shows what HTML shows. -/
theorem shownItems_of_reads
    {text : List Char} {dropping dropped : List (List Char)}
    (reads : Reads dropping dropped text) :
    shownItems dropping (scan text) = shownText dropped (tokens text) := by
  induction reads with
  | done dropping dropped => rfl
  | text nonempty plain stops reads inductionHypothesis =>
      rw [scan_text nonempty plain stops, tokens_text nonempty plain stops, shownItems,
        shownText, inductionHypothesis]
  | tag found cut same cooked reads inductionHypothesis =>
      rw [scan_lt, cut, tokens_lt_markup found, cooked, List.nil_append,
        shownText_cons_markup found, ← same]
      exact inductionHypothesis
  | hidden found cut same inside content passes reads inductionHypothesis =>
      rw [scan_lt, cut, tokens_lt_markup found, content,
        shownText_cons_markup found, List.singleton_append, shownText, if_neg inside,
        List.nil_append, ← inductionHypothesis]
      exact shownItems_of_passes passes
  | shown found cut none_ same content plain literal reads inductionHypothesis =>
      rename_i raw behind token tag
      obtain ⟨rfl, stops⟩ := rawBehind_append content
      have itself : shownItems [] (scan (raw ++ behind)) =
          raw ++ shownItems [] (scan behind) := by
        by_cases empty : raw = []
        · rw [empty]
          rfl
        · have visible : dropText raw [] = [] := rfl
          rw [scan_text empty plain stops, shownItems, if_pos visible, literal, visible]
      rw [scan_lt, cut, tokens_lt_markup found, content,
        shownText_cons_markup found, List.singleton_append, shownText, same, if_pos rfl,
        ← inductionHypothesis, shownItems, none_]
      exact itself

/-! ## Kept text -/

namespace Sample

/-- A comparison. -/
def comparison : List Char :=
  "<p>1 < 2</p><p>more</p>".toList

def linkEnd : List Char :=
  '<' :: "/a>".toList

def link : List Char :=
  '<' :: ("a title=\">\">".toList ++ ("1 &lt; 2".toList ++ linkEnd))

def styleEnd : List Char :=
  '<' :: ("/style>".toList ++ link)

/-- A style sheet, and a link whose title holds a `>`. -/
def styledLink : List Char :=
  '<' :: ("style>".toList ++ ("p\x7bx\x7d".toList ++ styleEnd))

theorem reads_styledLink : Reads [] [] styledLink := by
  have behind : Reads [] [] linkEnd :=
    @Reads.tag [] [] _ [] (.stop "a".toList) (some ⟨"a".toList, [], true, false⟩)
      (by decide +kernel) (by decide +kernel) (by decide +kernel) (by decide +kernel)
      (.done [] [])
  have inside : Reads [] [] ("1 &lt; 2".toList ++ linkEnd) :=
    .text (by decide) (by decide) (fun _ first => (Option.some.inj first).symm) behind
  have linked : Reads [] [] link :=
    @Reads.tag [] [] _ _ (.start "a".toList false)
      (some ⟨"a".toList, [("title".toList, ">".toList)], false, false⟩)
      (by decide +kernel) (by decide +kernel) (by decide +kernel) (by decide +kernel)
      inside
  have ended : Reads ["style".toList] ["style".toList] styleEnd :=
    @Reads.tag ["style".toList] ["style".toList] _ _ (.stop "style".toList)
      (some ⟨"style".toList, [], true, false⟩)
      (by decide +kernel) (by decide +kernel) (by decide +kernel) (by decide +kernel)
      linked
  exact @Reads.hidden [] [] ["style".toList] _ ("p\x7bx\x7d".toList ++ styleEnd)
    "p\x7bx\x7d".toList styleEnd (.start "style".toList false)
    (some ⟨"style".toList, [], false, false⟩)
    (by decide +kernel) (by decide +kernel) (by decide +kernel) (by decide +kernel)
    (by decide +kernel)
    (.text (by decide) (by decide) (fun _ first => (Option.some.inj first).symm) (by decide)
      (.here _)) ended

end Sample

end Html
end Mailcore

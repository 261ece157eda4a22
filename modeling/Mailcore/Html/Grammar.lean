import Mailcore.Html.SafeMarks

/-!
# The grammar of sanitized HTML

Whatever the input, the output is put together from escaped texts, allowed tags
with allowed attributes, and placeholders for blocked images.
-/

namespace Mailcore
namespace Html

open Text (asciiLower)

/-! ## Clean styles -/

section Parts

variable {α : Type} {word first second : List α} {separator : α}

theorem prefix_of_prefix_append_cons (apart : separator ∉ word)
    (inside : word <+: first ++ separator :: second) : word <+: first := by
  rcases List.prefix_or_prefix_of_prefix inside (List.prefix_append _ _) with done | ⟨rest, rfl⟩
  · exact done
  · rw [List.prefix_append_right_inj] at inside
    cases rest with
    | nil => rw [List.append_nil]
    | cons head rest =>
        obtain ⟨rfl, -⟩ := List.cons_prefix_cons.mp inside
        exact absurd (List.mem_append_right _ List.mem_cons_self) apart

/-- A word without the separator stands in a joined text inside one part. -/
theorem infix_append_cons (apart : separator ∉ word)
    (inside : word <:+: first ++ separator :: second) : word <:+: first ∨ word <:+: second := by
  induction first with
  | nil =>
      rcases List.infix_cons_iff.mp inside with front | behind
      · exact .inl (@prefix_of_prefix_append_cons _ _ [] _ _ apart front).isInfix
      · exact .inr behind
  | cons head first inductionHypothesis =>
      rcases List.infix_cons_iff.mp inside with front | behind
      · exact .inl
          (@prefix_of_prefix_append_cons _ _ (head :: first) _ _ apart front).isInfix
      · exact (inductionHypothesis behind).imp_left List.infix_cons

end Parts

/-- The words that no style may hold, in any case. -/
def forbiddenWords : List String := ["url", "/*", "expression"]

/-- A style text that names nothing to fetch or to run, in plain words or in
disguise. -/
def CleanStyle (style : List Char) : Prop :=
  '@' ∉ style ∧ '\\' ∉ style ∧
    ∀ word ∈ forbiddenWords, ¬word.toList <:+: asciiLower style

instance (style : List Char) : Decidable (CleanStyle style) :=
  inferInstanceAs (Decidable (_ ∧ _ ∧ _))

theorem CleanStyle.join {first second : List Char} (before : CleanStyle first)
    (behind : CleanStyle second) {separator : Char} (plain : separator ∈ [':', ';']) :
    CleanStyle (first ++ separator :: second) := by
  have away : ∀ separator ∈ [':', ';'], '@' ≠ separator ∧ '\\' ≠ separator ∧
      separator.toLower = separator ∧
        ∀ word ∈ forbiddenWords, separator ∉ word.toList := by simp [forbiddenWords]
  obtain ⟨noAt, noBackslash, lower, noWord⟩ := away separator plain
  refine ⟨?_, ?_, fun word forbidden inside => ?_⟩
  · simp only [List.mem_append, List.mem_cons, not_or]
    exact ⟨before.1, noAt, behind.1⟩
  · simp only [List.mem_append, List.mem_cons, not_or]
    exact ⟨before.2.1, noBackslash, behind.2.1⟩
  · have joined : asciiLower (first ++ separator :: second) =
        asciiLower first ++ separator :: asciiLower second := by
      rw [Text.asciiLower_append]
      exact congrArg (fun letter => asciiLower first ++ letter :: asciiLower second) lower
    rw [joined] at inside
    rcases infix_append_cons (noWord word forbidden) inside with left | right
    · exact before.2.2 word forbidden left
    · exact behind.2.2 word forbidden right

theorem cleanStyle_nil : CleanStyle [] := by decide

theorem cleanStyle_of_allowedProperty {prop : List Char} (allowed : allowedProperty prop) :
    CleanStyle prop :=
  of_decide_eq_true
    (@of_isOneOf _ (fun prop => decide (CleanStyle prop)) (by decide +kernel) prop allowed)

theorem cleanStyle_of_safeValue {value : List Char} (safe : safeValue value) :
    CleanStyle value := by
  unfold safeValue at safe
  simp only [Bool.and_eq_true, Bool.not_eq_true', List.all_eq_true] at safe
  obtain ⟨marks, words⟩ := safe
  have absent (mark : Char) (listed : mark ∈ ['\\', '<', '>', '@', '\x7b', '\x7d']) :
      mark ∉ value := fun member => by
    have unmarked := List.any_eq_false.mp marks mark member
    exact unmarked (List.contains_iff_mem.mpr listed)
  refine ⟨absent '@' (by decide), absent '\\' (by decide), fun word forbidden => ?_⟩
  have listed : ∀ word ∈ forbiddenWords, word ∈ ["/*", "url", "image", "expression",
      "javascript", "behavior", "binding", "var(", "attr("] := by decide
  have missing := words word (listed word forbidden)
  unfold containsText at missing
  simpa using missing

/-- What is kept of the declarations may stand in front of any clean text. -/
theorem cleanStyle_keptDeclarations {out : List Char}
    (before : ∀ rest, CleanStyle rest → CleanStyle (out ++ rest))
    (decls : List (List Char)) :
    CleanStyle (keptDeclarations out decls) := by
  induction decls generalizing out with
  | nil =>
      have done := before [] cleanStyle_nil
      rwa [List.append_nil] at done
  | cons decl decls inductionHypothesis =>
      rw [keptDeclarations]
      split
      · exact inductionHypothesis before
      · next piece kept =>
        split
        · have done := before [] cleanStyle_nil
          rwa [List.append_nil] at done
        · refine inductionHypothesis fun rest clean => ?_
          obtain ⟨⟨prop, value⟩, -, kept⟩ := Option.bind_eq_some_iff.mp kept
          dsimp only at kept
          split_ifs at kept with dropped
          push Not at dropped
          have named := cleanStyle_of_allowedProperty
            ((Bool.not_eq_false _).mp dropped.2.1)
          have valued := cleanStyle_of_safeValue ((Bool.not_eq_false _).mp dropped.2.2)
          rw [← Option.some.inj kept, List.append_assoc]
          refine before _ ?_
          rw [List.append_assoc, List.cons_append, List.append_assoc]
          exact named.join (valued.join clean (by decide)) (by decide)

theorem cleanStyle_sanitizeStyle {raw kept : List Char}
    (found : sanitizeStyle raw = some kept) : CleanStyle kept := by
  unfold sanitizeStyle at found
  dsimp only at found
  split_ifs at found
  rw [← Option.some.inj found]
  exact @cleanStyle_keptDeclarations [] (fun rest clean => clean) _

/-! ## Allowed attributes -/

/-- The attributes of links and images. -/
def linkAttrs : List ((List Char → Bool) × List String) :=
  [(fun tag => tag = "a".toList, ["href", "rel"]),
    (fun tag => tag = "img".toList, ["src", "alt"])]

def allowedAttr (tag key : List Char) : Prop :=
  ∃ row ∈ presentationalAttrs ++ linkAttrs, row.1 tag ∧ isOneOf row.2 key

/-- Where a link may lead. -/
def LinkTarget (target : List Char) : Prop :=
  ∃ scheme ∈ ["http://", "https://", "mailto:"], startsWith target scheme

/-- What an image may show. -/
def ImageSource (allowRemote : Bool) (source : List Char) : Prop :=
  startsWith (asciiLower source) "cid:" ∨ isRasterData (asciiLower source) ∨
    allowRemote ∧ isHttpUrl source ∧ isPublicRemote source

/-- An attribute that may stand on a tag. -/
structure SafeAttr (allowRemote : Bool) (tag key value : List Char) : Prop where
  allowed : allowedAttr tag key
  noHandler : startsWith key "on" = false
  noClass : key ≠ "class".toList
  noId : key ≠ "id".toList
  href : key = "href".toList → LinkTarget (asciiLower value)
  src : key = "src".toList → ImageSource allowRemote value
  style : key = "style".toList → CleanStyle value

section Attributes

variable {isAlphanumeric : Char → Bool} {allowRemote : Bool}

theorem not_neverKept {key : List Char} (plain : neverKept key = false) :
    startsWith key "on" = false ∧ key ≠ "class".toList ∧ key ≠ "id".toList := by
  unfold neverKept at plain
  simpa [and_assoc] using plain

/-- What carries presentation is neither a link nor an image. -/
theorem allowed_of_presentational {tag k v kept : List Char}
    (found : presentational isAlphanumeric tag k v = some kept) :
    allowedAttr tag k ∧ k ≠ "href".toList ∧ k ≠ "src".toList := by
  obtain ⟨row, member, applies, named⟩ := listed_of_presentational found
  have other : ∀ row ∈ presentationalAttrs, ∀ word ∈ row.2, word ∉ ["href", "src"] := by decide
  obtain ⟨word, here, spelled⟩ := exists_of_isOneOf named
  have away := other row member word here
  simp only [List.mem_cons, List.not_mem_nil, or_false, not_or] at away
  refine ⟨⟨row, List.mem_append_left _ member, applies, named⟩, ?_, ?_⟩
  · exact fun same => away.1 (String.toList_inj.mp (spelled.symm.trans same))
  · exact fun same => away.2 (String.toList_inj.mp (spelled.symm.trans same))

theorem cleanStyle_of_presentational {tag v kept : List Char}
    (found : presentational isAlphanumeric tag "style".toList v = some kept) :
    CleanStyle kept := by
  unfold presentational at found
  dsimp only at found
  rw [if_pos rfl] at found
  exact cleanStyle_sanitizeStyle found

theorem linkTarget_of_safeHref {href target : List Char} (safe : safeHref href = some target) :
    LinkTarget (asciiLower target) := by
  unfold safeHref at safe
  dsimp only at safe
  split_ifs at safe with empty leads
  rw [← Option.some.inj safe]
  simpa [LinkTarget, or_assoc] using leads

theorem imageSource_of_safeImgSrc {src source : List Char}
    (safe : safeImgSrc src allowRemote = some source) : ImageSource allowRemote source := by
  unfold safeImgSrc at safe
  dsimp only at safe
  split_ifs at safe with empty cid raster short remote public_
  · rw [← Option.some.inj safe]
    exact .inl cid
  · rw [← Option.some.inj safe]
    exact .inr (.inl raster)
  · rw [← Option.some.inj safe]
    rw [Bool.and_eq_true] at public_
    exact .inr (.inr ⟨public_.1, remote, public_.2⟩)

/-- An attribute of a link or an image is safe where its value is. -/
theorem safeAttr_spelled {tag value : List Char} {key : String}
    {row : (List Char → Bool) × List String} (member : row ∈ linkAttrs) (applies : row.1 tag)
    (listed : key ∈ row.2) (href : key = "href" → LinkTarget (asciiLower value))
    (src : key = "src" → ImageSource allowRemote value) :
    SafeAttr allowRemote tag key.toList value := by
  have plain : ∀ row ∈ linkAttrs, ∀ key ∈ row.2, startsWith key.toList "on" = false ∧
      key ≠ "class" ∧ key ≠ "id" ∧ key ≠ "style" := by decide
  obtain ⟨noHandler, noClass, noId, noStyle⟩ := plain row member key listed
  exact {
    allowed := ⟨row, List.mem_append_right _ member, applies,
      isOneOf_of_subset (by simpa using listed) (isOneOf_singleton key)⟩
    noHandler
    noClass := fun same => noClass (String.toList_inj.mp same)
    noId := fun same => noId (String.toList_inj.mp same)
    href := fun same => href (String.toList_inj.mp same)
    src := fun same => src (String.toList_inj.mp same)
    style := fun same => absurd (String.toList_inj.mp same) noStyle }

/-- What is left of an attribute is safe. -/
theorem safeAttr_of_keptAttr {tag : List Char} {given kept : Attr}
    (member : kept ∈ keptAttr isAlphanumeric allowRemote tag given) :
    SafeAttr allowRemote tag kept.1 kept.2 := by
  obtain ⟨k, v⟩ := given
  unfold keptAttr at member
  dsimp only at member
  split at member
  · cases member
  next plain =>
  obtain ⟨noHandler, noClass, noId⟩ := not_neverKept (Bool.not_eq_true _ ▸ plain)
  split at member
  · next value found =>
    rw [List.mem_singleton.mp member]
    obtain ⟨allowed, noHref, noSrc⟩ := allowed_of_presentational found
    refine ⟨allowed, noHandler, noClass, noId, fun same => absurd same noHref,
      fun same => absurd same noSrc, ?_⟩
    rintro rfl
    exact cleanStyle_of_presentational found
  split at member
  · next link =>
    have applies := decide_eq_true link.1
    split at member
    · next target safe =>
      rcases List.mem_cons.mp member with rfl | rel
      · exact safeAttr_spelled List.mem_cons_self applies (by decide)
          (fun _ => linkTarget_of_safeHref safe) (by simp)
      · rw [List.mem_singleton.mp rel]
        exact safeAttr_spelled List.mem_cons_self applies (by decide) (by simp) (by simp)
    · cases member
  split at member
  · next image =>
    split at member
    · next source safe =>
      rw [List.mem_singleton.mp member]
      exact safeAttr_spelled (List.mem_cons_of_mem _ List.mem_cons_self)
        (decide_eq_true image.1) (by decide) (by simp)
        (fun _ => imageSource_of_safeImgSrc safe)
    · cases member
  split at member
  · next image =>
    rw [List.mem_singleton.mp member]
    exact safeAttr_spelled (List.mem_cons_of_mem _ List.mem_cons_self)
      (decide_eq_true image.1) (by decide) (by simp) (by simp)
  · cases member

end Attributes

/-! ## The output -/

/-- An attribute as it stands on a tag: in double quotes is a text without quotes
and angle brackets that decodes to a safe value. -/
def AttrText (allowRemote : Bool) (tag written : List Char) : Prop :=
  ∃ key text, written = ' ' :: (key ++ '=' :: '"' :: (text ++ ['"'])) ∧
    (∀ mark ∈ ['"', '<', '>'], mark ∉ text) ∧
      SafeAttr allowRemote tag key (decodeEntities text)

/-- The pieces of sanitized HTML. -/
inductive Piece (allowRemote : Bool) : List Char → Prop
  | text (chars : List Char) (escaped : ∀ mark ∈ ['<', '>'], mark ∉ escapeText chars) :
      Piece allowRemote (escapeText chars)
  | opening (tag : List Char) (attrs : List (List Char)) (allowed : allowedTag tag)
      (safe : ∀ written ∈ attrs, AttrText allowRemote tag written) :
      Piece allowRemote ('<' :: (tag ++ (attrs.flatten ++ ['>'])))
  | closing (tag : List Char) (allowed : allowedTag tag) :
      Piece allowRemote ('<' :: '/' :: (tag ++ ['>']))
  | blocked (alt : List Char) : Piece allowRemote (marksHtml (blockedImgPlaceholder alt))

/-- A text put together from pieces. -/
def Composed (allowRemote : Bool) (html : List Char) : Prop :=
  ∃ pieces : List (List Char),
    html = pieces.flatten ∧ ∀ piece ∈ pieces, Piece allowRemote piece

theorem notMem_escapeAttr {mark : Char} (special : mark ∈ ['"', '<', '>']) (value : List Char) :
    mark ∉ escapeAttr value := by
  have entities : ∀ mark ∈ ['"', '<', '>'], ∀ entity ∈ ["&amp;", "&quot;", "&lt;", "&gt;"],
      mark ∉ entity.toList := by simp
  unfold escapeAttr
  rw [List.mem_flatMap]
  rintro ⟨char, -, inside⟩
  unfold escapeAttrChar at inside
  split at inside
  · exact entities mark special "&amp;" (by decide) inside
  · exact entities mark special "&quot;" (by decide) inside
  · exact entities mark special "&lt;" (by decide) inside
  · exact entities mark special "&gt;" (by decide) inside
  · next notQuote notLt notGt =>
    obtain rfl := List.mem_singleton.mp inside
    simp only [List.mem_cons, List.not_mem_nil, or_false] at special
    exact special.elim notQuote fun angle => angle.elim notLt notGt

theorem notMem_escapeText {mark : Char} (special : mark ∈ ['<', '>']) (text : List Char) :
    mark ∉ escapeText text := by
  have entities : ∀ mark ∈ ['<', '>'], ∀ entity ∈ ["&amp;", "&lt;", "&gt;"],
      mark ∉ entity.toList := by simp
  unfold escapeText
  rw [List.mem_flatMap]
  rintro ⟨char, -, inside⟩
  unfold escapeTextChar at inside
  split at inside
  · exact entities mark special "&amp;" (by decide) inside
  · exact entities mark special "&lt;" (by decide) inside
  · exact entities mark special "&gt;" (by decide) inside
  · next notLt notGt =>
    obtain rfl := List.mem_singleton.mp inside
    simp only [List.mem_cons, List.not_mem_nil, or_false] at special
    exact special.elim notLt notGt

section Output

variable {isAlphanumeric : Char → Bool} {allowRemote : Bool}

theorem attrText_attrHtml {tag : List Char} {given : Attr}
    (safe : SafeAttr allowRemote tag given.1 given.2) :
    AttrText allowRemote tag (attrHtml given) := by
  refine ⟨given.1, escapeAttr given.2, rfl, fun mark special => notMem_escapeAttr special _, ?_⟩
  rwa [(decodeEntities_escape given.2).2]

theorem composed_nil : Composed allowRemote [] := ⟨[], rfl, by simp⟩

theorem Composed.append {html piece : List Char} (composed : Composed allowRemote html)
    (next : Piece allowRemote piece) : Composed allowRemote (html ++ piece) := by
  obtain ⟨pieces, rfl, each⟩ := composed
  refine ⟨pieces ++ [piece], by simp, fun other member => ?_⟩
  rcases List.mem_append.mp member with old | new
  · exact each other old
  · rw [List.mem_singleton.mp new]
    exact next

theorem composed_pushCapped {out push : List Mark}
    (composed : Composed allowRemote (marksHtml out))
    (next : Piece allowRemote (marksHtml push)) :
    Composed allowRemote (marksHtml (pushCapped out push)) := by
  unfold pushCapped
  split
  · exact composed
  · unfold marksHtml
    rw [List.flatMap_append]
    exact composed.append next

theorem composed_pushes {out : List Mark} {pushes : List (List Mark)}
    (composed : Composed allowRemote (marksHtml out))
    (each : ∀ push ∈ pushes, Piece allowRemote (marksHtml push)) :
    Composed allowRemote (marksHtml (pushes.foldl pushCapped out)) := by
  induction pushes generalizing out with
  | nil => exact composed
  | cons push pushes inductionHypothesis =>
      exact inductionHypothesis
        (composed_pushCapped composed (each push List.mem_cons_self))
        fun other member => each other (List.mem_cons_of_mem _ member)

theorem piece_closing {tag : List Char} (allowed : allowedTag tag) :
    Piece allowRemote (marksHtml [.closing tag]) := by
  have written : marksHtml [.closing tag] = '<' :: '/' :: (tag ++ ['>']) := by
    simp [marksHtml, Mark.html]
  rw [written]
  exact .closing tag allowed

/-- Each thing a turn pushes is one piece. -/
theorem piece_of_turn {state : State} (named : state.Named) (item : Item) :
    ∀ push ∈ (turn isAlphanumeric allowRemote state item).pushes,
      Piece allowRemote (marksHtml push) := by
  intro push member
  cases item with
  | text chunk =>
      rw [turn] at member
      dsimp only at member
      split at member
      · have written : marksHtml [.text (decodeEntities chunk)] =
            escapeText (decodeEntities chunk) := by
          simp [marksHtml, Mark.html]
        rw [List.mem_singleton.mp member, written]
        exact .text _ fun mark special => notMem_escapeText special _
      · cases member
  | markup tag =>
      have wrote := @wrote_turn isAlphanumeric allowRemote state tag
      generalize turn isAlphanumeric allowRemote state (.markup tag) = after at wrote member
      cases wrote with
      | nothing hadRemote dropping => cases member
      | badge t hadRemote dropping alt =>
          rw [List.mem_singleton.mp member]
          exact .blocked alt
      | opens t hadRemote dropping allowed =>
          have written (attrs : List Attr) : marksHtml [.opening t.name attrs false] =
              '<' :: (t.name ++ ((attrs.map attrHtml).flatten ++ ['>'])) := by
            simp [marksHtml, Mark.html, attrsHtml, List.flatMap]
          rw [List.mem_singleton.mp member, written]
          refine .opening t.name _ allowed fun text inside => ?_
          obtain ⟨kept, listed, rfl⟩ := List.mem_map.mp inside
          obtain ⟨given, -, left⟩ := List.mem_flatMap.mp listed
          exact attrText_attrHtml (safeAttr_of_keptAttr left)
      | closes t dropping allowed full =>
          obtain ⟨name, popped, rfl⟩ := List.mem_map.mp member
          exact piece_closing (named name (mem_of_mem_poppedBy popped)).1

theorem composed_walk {items : List Item} {state : State} {out : List Mark}
    (named : state.Named) (composed : Composed allowRemote (marksHtml out)) :
    Composed allowRemote
      (marksHtml (walk isAlphanumeric allowRemote items state out).2) := by
  induction items generalizing state out with
  | nil => exact composed
  | cons item items inductionHypothesis =>
      have after := composed_pushes composed
        (@piece_of_turn isAlphanumeric allowRemote state named item)
      rw [walk]
      split
      · exact after
      · exact inductionHypothesis (sound_turn named item).named after

theorem composed_closeAll {names : List (List Char)} {out : List Mark}
    (named : ∀ name ∈ names, allowedTag name)
    (composed : Composed allowRemote (marksHtml out)) :
    Composed allowRemote (marksHtml (closeAll names out)) := by
  induction names generalizing out with
  | nil => exact composed
  | cons name names inductionHypothesis =>
      rw [closeAll]
      split
      · exact composed
      · exact inductionHypothesis
          (fun other member => named other (List.mem_cons_of_mem _ member))
          (composed_pushCapped composed (piece_closing (named name List.mem_cons_self)))

/-- Whatever the input, the output is put together from safe pieces. -/
theorem sanitize_composed (isAlphanumeric : Char → Bool) (raw : List Char)
    (allowRemote : Bool) :
    Composed allowRemote (sanitize isAlphanumeric raw allowRemote).html := by
  have start : State.start.Named := by simp [State.Named, State.start]
  have walked := @written_walk isAlphanumeric allowRemote
    (scan (truncateOnCharBoundary MAX_HTML_BYTES raw)) .start [] start (by simp)
  exact composed_closeAll (fun name member => (walked.1 name member).1)
    (composed_walk start composed_nil)

end Output

end Html
end Mailcore

import Mailcore.Text.LowerCase
import Mathlib.Data.List.Infix

/-!
# HTML tokens

How HTML cuts a text into tokens.  A `<` opens a tag only before a letter or a
`/`, quotes delimit only the values of attributes, and what stands between some
tags is raw text up to their own end tag.
-/

namespace Mailcore
namespace Markup

open Text (asciiLower)

inductive Token
  | text (chars : List Char)
  /-- Text in which nothing is markup and nothing is decoded. -/
  | raw (chars : List Char)
  | start (name : List Char) (selfClosing : Bool)
  | stop (name : List Char)
  | comment
  deriving DecidableEq, Repr

def isSpace (char : Char) : Bool :=
  [' ', '\t', '\n', '\r', '\u000c'].contains char

/-! ## Inside a tag -/

/-- Where a tag's text stands. -/
inductive Within
  | name
  | gap
  | attrName
  | afterName
  | equals
  | quoted (quote : Char)
  | bare
  | slash
  deriving DecidableEq, Repr

/-- Where an attribute may begin. -/
def gapNext (char : Char) : Option Within :=
  if char = '>' then none
  else if isSpace char then some .gap
  else if char = '/' then some .slash
  else some .attrName

/-- Where the next character leads; none at the end of the tag. -/
def Within.next : Within → Char → Option Within
  | .name, char =>
      if char = '>' then none
      else if isSpace char then some .gap
      else if char = '/' then some .slash
      else some .name
  | .gap, char => gapNext char
  | .attrName, char =>
      if char = '>' then none
      else if isSpace char then some .afterName
      else if char = '/' then some .slash
      else if char = '=' then some .equals
      else some .attrName
  | .afterName, char =>
      if char = '>' then none
      else if isSpace char then some .afterName
      else if char = '/' then some .slash
      else if char = '=' then some .equals
      else some .attrName
  | .equals, char =>
      if char = '>' then none
      else if isSpace char then some .equals
      else if char = '"' ∨ char = '\'' then some (.quoted char)
      else some .bare
  | .quoted quote, char => some (if char = quote then .gap else .quoted quote)
  | .bare, char =>
      if char = '>' then none
      else if isSpace char then some .gap
      else some .bare
  | .slash, char => gapNext char

/-- Whether a tag closes itself, and the text behind it; none where it never
ends. -/
def tagEnd : Within → List Char → Option (Bool × List Char)
  | _, [] => none
  | within, char :: rest =>
      match within.next char with
      | none => some (decide (within = .slash), rest)
      | some within => tagEnd within rest

/-- The name a tag begins with. -/
def tagName (text : List Char) : List Char :=
  asciiLower (text.takeWhile fun char => !isSpace char && char != '/' && char != '>')

/-- The tag whose name begins here.  One that never ends is no tag. -/
def tagAt (token : List Char → Bool → Token) (text : List Char) : Token × List Char :=
  match tagEnd .name text with
  | some (selfClosing, rest) => (token (tagName text) selfClosing, rest)
  | none => (.comment, [])

/-! ## Comments -/

/-- The text behind the first `>`. -/
def afterGt : List Char → List Char
  | [] => []
  | '>' :: rest => rest
  | _ :: rest => afterGt rest

/-- The text behind the end of a comment. -/
def commentRest : List Char → List Char
  | [] => []
  | '-' :: '-' :: '>' :: rest => rest
  | '-' :: '-' :: '!' :: '>' :: rest => rest
  | _ :: rest => commentRest rest

/-- The same behind `<!--`, where a comment may end at once. -/
def commentEnd : List Char → List Char
  | '>' :: rest => rest
  | '-' :: '>' :: rest => rest
  | text => commentRest text

/-- The markup behind a `<`, and the text behind it; none where it is text. -/
def markup : List Char → Option (Token × List Char)
  | '!' :: '-' :: '-' :: rest => some (.comment, commentEnd rest)
  | '!' :: rest => some (.comment, afterGt rest)
  | '?' :: rest => some (.comment, afterGt rest)
  | '/' :: char :: rest =>
      if char.isAlpha then some (tagAt (fun name _ => .stop name) (char :: rest))
      else some (.comment, afterGt (char :: rest))
  | char :: rest =>
      if char.isAlpha then some (tagAt .start (char :: rest)) else none
  | [] => none

/-! ## Raw text -/

/-- Elements whose content is raw text. -/
def isRawName (name : List Char) : Bool :=
  ["script", "style", "iframe", "textarea", "title", "xmp", "noembed",
    "noframes", "plaintext"].contains (String.ofList name)

/-- The end tag of a name stands here. -/
def atStop (name text : List Char) : Bool :=
  match text with
  | '<' :: '/' :: rest =>
      asciiLower (rest.take name.length) == name &&
        (rest.drop name.length).head?.any fun char =>
          isSpace char || char = '/' || char = '>'
  | _ => false

/-- Raw text up to its end tag, and the text from there on. -/
def rawSplit (name : List Char) : List Char → List Char × List Char
  | [] => ([], [])
  | char :: rest =>
      if name ≠ "plaintext".toList ∧ atStop name (char :: rest) then ([], char :: rest)
      else (char :: (rawSplit name rest).1, (rawSplit name rest).2)

/-- What follows a token before the next: raw text, and the text behind it. -/
def rawBehind : Token → List Char → List Token × List Char
  | .start name _, text =>
      if isRawName name then ([.raw (rawSplit name text).1], (rawSplit name text).2)
      else ([], text)
  | _, text => ([], text)

/-! ## Tokens -/

/-- The tokens of a text without its first characters. -/
def tokensFrom : Nat → List Char → List Token
  | _, [] => []
  | skipped + 1, _ :: rest => tokensFrom skipped rest
  | 0, char :: rest =>
      if char = '<' then
        match markup rest with
        | none => .text ['<'] :: tokensFrom 0 rest
        | some (token, next) =>
            token :: ((rawBehind token next).1 ++
              tokensFrom (rest.length - (rawBehind token next).2.length) rest)
      else
        .text (char :: rest.takeWhile (· != '<')) ::
          tokensFrom (rest.takeWhile (· != '<')).length rest

def tokens (text : List Char) : List Token :=
  tokensFrom 0 text

/-! ## Reading on -/

theorem tagEnd_suffix
    {within : Within} {text rest : List Char} {selfClosing : Bool}
    (found : tagEnd within text = some (selfClosing, rest)) : rest <:+ text := by
  induction text generalizing within with
  | nil => simp [tagEnd] at found
  | cons char text inductionHypothesis =>
      rw [tagEnd] at found
      split at found
      · rw [Option.some.injEq, Prod.mk.injEq] at found
        rw [← found.2]
        exact List.suffix_cons _ _
      · exact (inductionHypothesis found).trans (List.suffix_cons _ _)

theorem tagAt_suffix (token : List Char → Bool → Token) (text : List Char) :
    (tagAt token text).2 <:+ text := by
  unfold tagAt
  split
  · next found => exact tagEnd_suffix found
  · exact List.nil_suffix

theorem afterGt_suffix (text : List Char) : afterGt text <:+ text := by
  induction text using afterGt.induct with
  | case1 => exact List.nil_suffix
  | case2 rest => exact List.suffix_cons _ _
  | case3 char rest other inductionHypothesis =>
      rw [afterGt]
      · exact inductionHypothesis.trans (List.suffix_cons _ _)
      · exact other

theorem commentRest_suffix (text : List Char) : commentRest text <:+ text := by
  fun_induction commentRest text with
  | case1 => exact List.nil_suffix
  | case2 rest => exact List.suffix_append ['-', '-', '>'] _
  | case3 rest => exact List.suffix_append ['-', '-', '!', '>'] _
  | case4 char rest _ _ inductionHypothesis =>
      exact inductionHypothesis.trans (List.suffix_cons _ _)

theorem commentEnd_suffix (text : List Char) : commentEnd text <:+ text := by
  unfold commentEnd
  split
  · exact List.suffix_cons _ _
  · exact List.suffix_append ['-', '>'] _
  · exact commentRest_suffix _

theorem tagAt_cases (token : List Char → Bool → Token) (text : List Char) :
    (∃ name selfClosing, (tagAt token text).1 = token name selfClosing) ∨
      (tagAt token text).1 = .comment := by
  unfold tagAt
  split
  · next selfClosing rest _ => exact .inl ⟨tagName text, selfClosing, rfl⟩
  · exact .inr rfl

/-- Markup is a tag or a comment. -/
theorem markup_cases
    {text next : List Char} {token : Token}
    (found : markup text = some (token, next)) :
    (∃ name selfClosing, token = .start name selfClosing) ∨
      (∃ name, token = .stop name) ∨ token = .comment := by
  have comment {rest : List Char} (same : some (Token.comment, rest) = some (token, next)) :
      token = .comment := (Prod.mk.inj (Option.some.inj same)).1.symm
  unfold markup at found
  split at found
  · exact .inr (.inr (comment found))
  · exact .inr (.inr (comment found))
  · exact .inr (.inr (comment found))
  · rename_i char rest
    split at found
    · have cases_ := tagAt_cases (fun name _ => .stop name) (char :: rest)
      rw [Option.some.inj found] at cases_
      rcases cases_ with ⟨name, selfClosing, same⟩ | same
      · exact .inr (.inl ⟨name, same⟩)
      · exact .inr (.inr same)
    · exact .inr (.inr (comment found))
  · rename_i char rest _ _ _ _
    split at found
    · have cases_ := tagAt_cases .start (char :: rest)
      rw [Option.some.inj found] at cases_
      exact cases_.imp id .inr
    · cases found
  · cases found

theorem markup_suffix
    {text next : List Char} {token : Token}
    (found : markup text = some (token, next)) : next <:+ text := by
  unfold markup at found
  split at found
  · rw [Option.some.injEq, Prod.mk.injEq] at found
    rw [← found.2]
    exact (commentEnd_suffix _).trans (List.suffix_append ['!', '-', '-'] _)
  · rw [Option.some.injEq, Prod.mk.injEq] at found
    rw [← found.2]
    exact (afterGt_suffix _).trans (List.suffix_cons _ _)
  · rw [Option.some.injEq, Prod.mk.injEq] at found
    rw [← found.2]
    exact (afterGt_suffix _).trans (List.suffix_cons _ _)
  · rename_i char rest
    split at found
    · have suffix := tagAt_suffix (fun name _ => .stop name) (char :: rest)
      rw [Option.some.inj found] at suffix
      exact suffix.trans (List.suffix_cons _ _)
    · rw [Option.some.injEq, Prod.mk.injEq] at found
      rw [← found.2]
      exact (afterGt_suffix _).trans (List.suffix_cons _ _)
  · rename_i char rest _ _ _ _
    split at found
    · have suffix := tagAt_suffix .start (char :: rest)
      rw [Option.some.inj found] at suffix
      exact suffix
    · cases found
  · cases found

theorem rawSplit_suffix (name text : List Char) : (rawSplit name text).2 <:+ text := by
  induction text with
  | nil => exact List.suffix_refl _
  | cons char text inductionHypothesis =>
      rw [rawSplit]
      split
      · exact List.suffix_refl _
      · exact inductionHypothesis.trans (List.suffix_cons _ _)

/-- Raw text ends in front of a `<` or with the document. -/
theorem rawSplit_stops (name text : List Char) :
    ∀ char ∈ (rawSplit name text).2.head?, char = '<' := by
  induction text with
  | nil => simp [rawSplit]
  | cons char text inductionHypothesis =>
      rw [rawSplit]
      split
      · next ends =>
        intro first begins
        have stop := ends.2
        unfold atStop at stop
        split at stop
        · next same =>
          rw [same] at begins
          exact (Option.some.inj begins).symm
        · cases stop
      · exact inductionHypothesis

theorem rawSplit_append (name text : List Char) :
    (rawSplit name text).1 ++ (rawSplit name text).2 = text := by
  induction text with
  | nil => rfl
  | cons char text inductionHypothesis =>
      rw [rawSplit]
      split
      · rfl
      · rw [List.cons_append, inductionHypothesis]

/-- Raw text stands between its tags. -/
theorem rawBehind_append
    {token : Token} {text raw behind : List Char}
    (content : rawBehind token text = ([.raw raw], behind)) :
    text = raw ++ behind ∧ ∀ char ∈ behind.head?, char = '<' := by
  unfold rawBehind at content
  split at content
  · next name selfClosing =>
    split at content
    · simp only [Prod.mk.injEq, List.cons.injEq, Token.raw.injEq, and_true] at content
      obtain ⟨rfl, rfl⟩ := content
      exact ⟨(rawSplit_append name text).symm, rawSplit_stops name text⟩
    · simp at content
  · simp at content

theorem rawBehind_suffix (token : Token) (text : List Char) :
    (rawBehind token text).2 <:+ text := by
  unfold rawBehind
  split
  · split
    · exact rawSplit_suffix _ _
    · exact List.suffix_refl _
  · exact List.suffix_refl _

theorem drop_of_suffix {α : Type} {text rest : List α} (suffix : rest <:+ text) :
    text.drop (text.length - rest.length) = rest := by
  obtain ⟨front, rfl⟩ := suffix
  rw [List.length_append, Nat.add_sub_cancel_right, List.drop_left]

theorem tokensFrom_eq (skipped : Nat) (text : List Char) :
    tokensFrom skipped text = tokens (text.drop skipped) := by
  induction skipped generalizing text with
  | zero => rfl
  | succ skipped inductionHypothesis =>
      cases text with
      | nil => rfl
      | cons char text => exact inductionHypothesis text

@[simp] theorem tokens_nil : tokens [] = [] := rfl

/-- A `<` that opens nothing is text. -/
theorem tokens_lt_text {rest : List Char} (none_ : markup rest = none) :
    tokens ('<' :: rest) = .text ['<'] :: tokens rest := by
  rw [tokens, tokensFrom, if_pos rfl, none_]
  rfl

/-- The text goes on behind markup, and behind its raw text. -/
theorem tokens_lt_markup
    {rest next : List Char} {token : Token}
    (found : markup rest = some (token, next)) :
    tokens ('<' :: rest) =
      token :: ((rawBehind token next).1 ++ tokens (rawBehind token next).2) := by
  rw [tokens, tokensFrom, if_pos rfl, found]
  simp only
  rw [tokensFrom_eq,
    drop_of_suffix ((rawBehind_suffix token next).trans (markup_suffix found))]

theorem takeWhile_run
    {run rest : List Char} (plain : '<' ∉ run)
    (stops : ∀ char ∈ rest.head?, char = '<') :
    (run ++ rest).takeWhile (· != '<') = run := by
  rw [List.takeWhile_append_of_pos]
  · cases rest with
    | nil => simp
    | cons first rest =>
        rw [stops first rfl, List.takeWhile_cons_of_neg (by decide), List.append_nil]
  · intro other member
    rw [bne_iff_ne]
    exact fun same => plain (same ▸ member)

/-- Text goes on up to the next `<`. -/
theorem tokens_text
    {run rest : List Char} (nonempty : run ≠ []) (plain : '<' ∉ run)
    (stops : ∀ char ∈ rest.head?, char = '<') :
    tokens (run ++ rest) = .text run :: tokens rest := by
  cases run with
  | nil => exact absurd rfl nonempty
  | cons char run =>
      have differs : char ≠ '<' := fun same => plain (same ▸ List.mem_cons_self)
      have whole : (run ++ rest).takeWhile (· != '<') = run :=
        takeWhile_run (fun member => plain (List.mem_cons_of_mem _ member)) stops
      rw [List.cons_append, tokens, tokensFrom, if_neg differs, whole, tokensFrom_eq,
        List.drop_left]

end Markup
end Mailcore

/-!
## The attributes of start tags

How HTML reads the attributes of a tag, and two texts that differ in some of
their attributes only.
-/

namespace Mailcore
namespace Markup

open Text (asciiLower)

/-- Name and value, as the value is written. -/
abbrev Attribute := List Char × List Char

/-- An attribute whose name and value have been read. -/
def finished (name value : List Char) : Attribute :=
  (asciiLower name, value)

/-- The attributes of a tag's text, whose current attribute has been read so
far. -/
def attributesIn : Within → List Char → List Char → List Char → List Attribute
  | _, _, _, [] => []
  | .name, _, _, char :: rest =>
      match Within.name.next char with
      | none => []
      | some within => attributesIn within [] [] rest
  | .gap, _, _, char :: rest =>
      match Within.gap.next char with
      | none => []
      | some within => attributesIn within [char] [] rest
  | .slash, _, _, char :: rest =>
      match Within.slash.next char with
      | none => []
      | some within => attributesIn within [char] [] rest
  | .attrName, name, value, char :: rest =>
      match Within.attrName.next char with
      | none => [finished name value]
      | some .attrName => attributesIn .attrName (name ++ [char]) [] rest
      | some .slash => finished name value :: attributesIn .slash [] [] rest
      | some within => attributesIn within name [] rest
  | .afterName, name, value, char :: rest =>
      match Within.afterName.next char with
      | none => [finished name value]
      | some .attrName => finished name value :: attributesIn .attrName [char] [] rest
      | some .slash => finished name value :: attributesIn .slash [] [] rest
      | some within => attributesIn within name [] rest
  | .equals, name, value, char :: rest =>
      match Within.equals.next char with
      | none => [finished name value]
      | some .bare => attributesIn .bare name [char] rest
      | some within => attributesIn within name [] rest
  | .quoted quote, name, value, char :: rest =>
      if char = quote then finished name value :: attributesIn .gap [] [] rest
      else attributesIn (.quoted quote) name (value ++ [char]) rest
  | .bare, name, value, char :: rest =>
      match Within.bare.next char with
      | none => [finished name value]
      | some .bare => attributesIn .bare name (value ++ [char]) rest
      | some within => finished name value :: attributesIn within [] [] rest

/-- The attributes of the tag that begins with this text. -/
def attributesOf (text : List Char) : List Attribute :=
  attributesIn .name [] [] text

/-- A start tag: its name and its attributes. -/
abbrev StartTag := List Char × List Attribute

/-- The start tag that a token of this text is. -/
def startTagOf (token : Token) (text : List Char) : List StartTag :=
  match token with
  | .start name _ => [(name, attributesOf text)]
  | _ => []

/-- The start tags of a text without its first characters. -/
def startTagsFrom : Nat → List Char → List StartTag
  | _, [] => []
  | skipped + 1, _ :: rest => startTagsFrom skipped rest
  | 0, char :: rest =>
      if char = '<' then
        match markup rest with
        | none => startTagsFrom 0 rest
        | some (token, next) =>
            startTagOf token rest ++
              startTagsFrom (rest.length - (rawBehind token next).2.length) rest
      else startTagsFrom 0 rest

def startTags (text : List Char) : List StartTag :=
  startTagsFrom 0 text

/-- A start tag without the attributes of some names. -/
def without (keys : List (List Char)) (tag : StartTag) : StartTag :=
  (tag.1, tag.2.filter fun given => !keys.contains given.1)

/-- Two texts of the same tokens, whose start tags differ in attributes of these
names only. -/
structure SameBut (keys : List (List Char)) (first second : List Char) : Prop where
  tokens : tokens first = tokens second
  startTags : (startTags first).map (without keys) = (startTags second).map (without keys)

/-! ## Reading on -/

theorem startTagsFrom_eq (skipped : Nat) (text : List Char) :
    startTagsFrom skipped text = startTags (text.drop skipped) := by
  induction skipped generalizing text with
  | zero => rfl
  | succ skipped inductionHypothesis =>
      cases text with
      | nil => rfl
      | cons char text => exact inductionHypothesis text

theorem startTags_lt_markup
    {rest next : List Char} {token : Token}
    (found : markup rest = some (token, next)) :
    startTags ('<' :: rest) =
      startTagOf token rest ++ startTags (rawBehind token next).2 := by
  rw [startTags, startTagsFrom, if_pos rfl, found]
  simp only
  rw [startTagsFrom_eq,
    drop_of_suffix ((rawBehind_suffix token next).trans (markup_suffix found))]

/-- No tag starts in text. -/
theorem startTags_text {run : List Char} (plain : '<' ∉ run) (rest : List Char) :
    startTags (run ++ rest) = startTags rest := by
  induction run with
  | nil => rfl
  | cons char run inductionHypothesis =>
      have differs : char ≠ '<' := fun same => plain (same ▸ List.mem_cons_self)
      rw [List.cons_append, startTags, startTagsFrom, if_neg differs]
      exact inductionHypothesis fun member => plain (List.mem_cons_of_mem _ member)

end Markup
end Mailcore

import Mailcore.Html.Urls

/-!
# Tags

Which tags are allowed, and where one ends.  The scanner works on the text
behind the `<`; every byte it looks for is ASCII.
-/

namespace Mailcore
namespace Html

open Text (asciiLower splitOnceAt parseUnsigned)

def isWs (char : Char) : Bool :=
  [' ', '\t', '\n', '\r', '\u000c'].contains char

/-- A text is one of some words. -/
def isOneOf (words : List String) (text : List Char) : Bool :=
  words.contains (String.ofList text)

def allowedTag : List Char → Bool :=
  isOneOf ["a", "p", "br", "div", "span", "b", "strong", "i", "em", "u", "s",
    "strike", "blockquote", "pre", "code", "ul", "ol", "li", "h1", "h2", "h3",
    "h4", "h5", "h6", "hr", "table", "thead", "tbody", "tfoot", "tr", "td", "th",
    "img", "font", "center", "small", "big", "sub", "sup", "mark", "ins", "del",
    "abbr", "caption", "colgroup", "col", "dl", "dt", "dd", "section", "article",
    "header", "footer", "main", "figure", "figcaption"]

def voidTag : List Char → Bool :=
  isOneOf ["br", "hr", "img", "col"]

/-- Tags that take table layout attributes. -/
def isTableTag : List Char → Bool :=
  isOneOf ["table", "thead", "tbody", "tfoot", "tr", "td", "th"]

/-- `drop_content_name`: tags whose content is dropped along with the tag. -/
def dropContentName : List Char → Bool :=
  isOneOf ["script", "style", "iframe", "object", "form", "button", "select",
    "textarea", "title", "head", "noscript", "template", "slot"]

/-- Tags that may sit inside `<head>`. -/
def headChildTag : List Char → Bool :=
  isOneOf ["meta", "link", "base", "title", "style", "script", "noscript",
    "template"]

structure Tag where
  name : List Char
  attrs : List (List Char × List Char)
  closing : Bool
  selfClosing : Bool
  deriving DecidableEq, Repr

/-! ## Attributes -/

/-- What ends the name of an attribute. -/
def inAttrName (char : Char) : Bool :=
  !isWs char && char != '=' && char != '/' && char != '>'

/-- The value behind the name of an attribute, and the text behind it. -/
def attrValue (text : List Char) : List Char × List Char :=
  match text.dropWhile isWs with
  | '=' :: rest =>
      match rest.dropWhile isWs with
      | quote :: quoted =>
          if quote = '"' ∨ quote = '\'' then
            (quoted.takeWhile (· != quote), (quoted.dropWhile (· != quote)).drop 1)
          else
            ((quote :: quoted).takeWhile fun char => !isWs char && char != '>',
              (quote :: quoted).dropWhile fun char => !isWs char && char != '>')
      | [] => ([], [])
  | rest => ([], rest)

/-- The attributes of a text, so many at most.  Each turn reads a character. -/
def parseAttrsIn : Nat → Nat → List Char → List (List Char × List Char)
  | 0, _, _ => []
  | fuel + 1, room, text =>
      let text := text.dropWhile fun char => isWs char || char = '/'
      if text = [] then []
      else
        let name := text.takeWhile inAttrName
        if name = [] then parseAttrsIn fuel room (text.drop 1)
        else
          let (value, rest) := attrValue (text.dropWhile inAttrName)
          (asciiLower name, value) ::
            if room ≤ 1 then [] else parseAttrsIn fuel (room - 1) rest

/-- `parse_attrs`: the loop ends when more than 32 were read. -/
def parseAttrs (text : List Char) : List (List Char × List Char) :=
  parseAttrsIn text.length 33 text

/-! ## Tags -/

/-- What stands in front of the `>` that is in no quotes, and behind it. -/
def findTagEnd : Option Char → List Char → Option (List Char × List Char)
  | _, [] => none
  | some quote, char :: rest =>
      (findTagEnd (if char = quote then none else some quote) rest).map
        fun cut => (char :: cut.1, cut.2)
  | none, char :: rest =>
      if char = '>' then some ([], rest)
      else
        (findTagEnd (if char = '"' ∨ char = '\'' then some char else none) rest).map
          fun cut => (char :: cut.1, cut.2)

/-- What may stand in the name of a tag. -/
def isNameChar (char : Char) : Bool :=
  char.isAlphanum || char == '-'

/-- The tag between `<` and `>`. -/
def tagOf (inner : List Char) : Option Tag :=
  let t := trim inner
  if t = [] then none
  else
    let closing := t.head? = some '/'
    let body := if closing then trim (t.drop 1) else t
    let selfClosing := body.getLast? = some '/'
    let body := if selfClosing then trim body.dropLast else body
    let split := fun char => !(Outbox.isWhitespace char || char = '/')
    let name := asciiLower (body.takeWhile split)
    if name = [] ∨ name.all isNameChar = false then none
    else some ⟨name, parseAttrs (body.dropWhile split), closing, selfClosing⟩

/-- What stands behind a pattern, or nothing where it is missing. -/
def afterPattern (pattern : String) (text : List Char) : List Char :=
  match splitOnceAt pattern.toList text with
  | some (_, rest) => rest
  | none => []

/-- `parse_tag`: the tag behind a `<` and the text behind it.  Comments,
declarations and processing instructions are no tags. -/
def parseTag : List Char → Option Tag × List Char
  | '!' :: '-' :: '-' :: '>' :: rest => (none, rest)
  | '!' :: '-' :: '-' :: '-' :: '>' :: rest => (none, rest)
  | '!' :: '-' :: '-' :: rest => (none, afterPattern "-->" rest)
  | '!' :: rest => (none, afterPattern ">" rest)
  | '?' :: rest => (none, afterPattern ">" rest)
  | text =>
      match findTagEnd none text with
      | none => (none, [])
      | some (inner, rest) => (tagOf inner, rest)

/-- Parse a small clamped uint. -/
def parseSmallUint (text : List Char) (low high : Nat) : Option Nat :=
  if 4 ≤ byteLen text ∨ text.all Char.isDigit = false then none
  else (parseUnsigned 10 (2 ^ 32) text).map fun n => max low (min n high)

/-! ## Where the scanner stands -/

theorem afterPattern_suffix (pattern : String) (text : List Char) :
    afterPattern pattern text <:+ text := by
  unfold afterPattern
  split
  · next front rest cut =>
      exact ⟨front ++ pattern.toList, (Text.eq_append_of_splitOnceAt cut).symm⟩
  · exact List.nil_suffix

theorem findTagEnd_append
    {quote : Option Char} {text inner rest : List Char}
    (found : findTagEnd quote text = some (inner, rest)) :
    text = inner ++ '>' :: rest := by
  induction text generalizing quote inner with
  | nil => simp [findTagEnd] at found
  | cons char text inductionHypothesis =>
      cases quote with
      | some quote =>
          rw [findTagEnd] at found
          obtain ⟨cut, within, same⟩ := Option.map_eq_some_iff.mp found
          rw [Prod.mk.injEq] at same
          obtain ⟨rfl, rfl⟩ := same
          rw [List.cons_append, ← inductionHypothesis within]
      | none =>
          rw [findTagEnd] at found
          split_ifs at found with ends
          all_goals first
            | rw [Option.some.injEq, Prod.mk.injEq] at found
              obtain ⟨rfl, rfl⟩ := found
              rw [ends, List.nil_append]
            | obtain ⟨cut, within, same⟩ := Option.map_eq_some_iff.mp found
              rw [Prod.mk.injEq] at same
              obtain ⟨rfl, rfl⟩ := same
              rw [List.cons_append, ← inductionHypothesis within]

/-- The scanner goes on further down the text. -/
theorem parseTag_suffix (text : List Char) : (parseTag text).2 <:+ text := by
  unfold parseTag
  split
  · exact List.suffix_append ['!', '-', '-', '>'] _
  · exact List.suffix_append ['!', '-', '-', '-', '>'] _
  · exact (afterPattern_suffix _ _).trans (List.suffix_append ['!', '-', '-'] _)
  · exact (afterPattern_suffix _ _).trans (List.suffix_append ['!'] _)
  · exact (afterPattern_suffix _ _).trans (List.suffix_append ['?'] _)
  · split
    · exact List.nil_suffix
    · next inner rest found =>
        rw [findTagEnd_append found, List.append_cons]
        exact List.suffix_append _ _

end Html
end Mailcore

/-!
## Walking the opening tags of sanitizer output

Text is escaped there, so `<` opens a tag, and an attribute is ` name="value"`
with `"` escaped inside the value.
-/

namespace Mailcore
namespace Html

open Text (splitOnceAt)

def isTagChar (char : Char) : Bool :=
  char.isLower || char.isDigit

/-- What stands behind a `<`: the name of an opening tag that has attributes, the
attribute text with its leading space, and what follows the tag. -/
def tagHead (tag : List Char) : Option (List Char × List Char × List Char) :=
  let name := tag.takeWhile isTagChar
  let opens := name.head?.any Char.isLower
  let spaced := (tag.dropWhile isTagChar).head?.any Outbox.isWhitespace
  match splitOnceAt ['>'] (tag.dropWhile isTagChar) with
  | some (attrs, rest) => if opens && spaced then some (name, attrs, rest) else none
  | none => none

section MapTags

variable (f : List Char → List Char → Option (List Char))

/-- The loop of `map_tags` without its first characters. -/
def mapTagsFrom : Nat → List Char → List Char
  | _, [] => []
  | skipped + 1, _ :: rest => mapTagsFrom skipped rest
  | 0, char :: rest =>
      if char = '<' then
        match tagHead rest with
        | some (name, attrs, behind) =>
            '<' :: (name ++ ((f name attrs).getD attrs ++
              '>' :: mapTagsFrom (rest.length - behind.length) rest))
        | none => '<' :: mapTagsFrom 0 rest
      else char :: mapTagsFrom 0 rest

/-- `map_tags`: a text with every opening tag that has attributes passed through
a function. -/
def mapTags (html : List Char) : List Char :=
  mapTagsFrom f 0 html

end MapTags

/-- The loop of `tags` without its first characters. -/
def tagsFrom : Nat → List Char → List (List Char × List Char)
  | _, [] => []
  | skipped + 1, _ :: rest => tagsFrom skipped rest
  | 0, char :: rest =>
      if char = '<' then
        match tagHead rest with
        | some (name, attrs, behind) =>
            (name, attrs) :: tagsFrom (rest.length - behind.length) rest
        | none => tagsFrom 0 rest
      else tagsFrom 0 rest

/-- Every opening tag with attributes: name and attribute text. -/
def tags (html : List Char) : List (List Char × List Char) :=
  tagsFrom 0 html

/-- What stands in front of the value of an attribute. -/
def needle (name : List Char) : List Char :=
  ' ' :: (name ++ ['=', '"'])

/-- An attribute with its value as it is written. -/
def spelled (name value : List Char) : List Char :=
  needle name ++ (value ++ ['"'])

/-- `find_attr`: the text in front of the first ` name="value"`, the value, and
the text behind. -/
def findAttr (attrs name : List Char) : Option (List Char × List Char × List Char) := do
  let (front, rest) ← splitOnceAt (needle name) attrs
  let (value, back) ← splitOnceAt ['"'] rest
  some (front, value, back)

end Html
end Mailcore

import Mailcore.Html.Css

/-!
# The sanitizer

Walk the input, keep what is allowed, serialise.  What is pushed onto the output
is kept as marks, whose HTML the source pushes.
-/

namespace Mailcore
namespace Html

open Text (asciiLower)

/-- Max input bytes examined. -/
def MAX_HTML_BYTES : Nat := 512000

/-- Max output bytes emitted. -/
def MAX_OUT_BYTES : Nat := 768000

/-- Nesting bound for dropped content. -/
def MAX_DROP_NESTING : Nat := 256

/-! ## Output -/

abbrev Attr := List Char × List Char

/-- One piece of serialised HTML. -/
inductive Mark
  | text (chars : List Char)
  | opening (name : List Char) (attrs : List Attr) (selfClosing : Bool)
  | closing (name : List Char)
  deriving DecidableEq, Repr

def attrHtml (attr : Attr) : List Char :=
  ' ' :: (attr.1 ++ '=' :: '"' :: (escapeAttr attr.2 ++ ['"']))

/-- `attrs_out`. -/
def attrsHtml (attrs : List Attr) : List Char :=
  attrs.flatMap attrHtml

def Mark.html : Mark → List Char
  | .text chars => escapeText chars
  | .opening name attrs selfClosing =>
      '<' :: (name ++ (attrsHtml attrs ++ if selfClosing then ['/', '>'] else ['>']))
  | .closing name => '<' :: '/' :: (name ++ ['>'])

def marksHtml (marks : List Mark) : List Char :=
  marks.flatMap Mark.html

def outLen (marks : List Mark) : Nat :=
  byteLen (marksHtml marks)

def pushCapped (out push : List Mark) : List Mark :=
  if MAX_OUT_BYTES + 1024 < outLen out + outLen push then out else out ++ push

/-! ## Blocked images -/

/-- An attribute under a name and with a value that are spelled out. -/
def attr (name value : String) : Attr :=
  (name.toList, value.toList)

/-- The badge: dashed rounded frame, sun, mountain. -/
def SVG_BADGE : List Mark :=
  [.opening "svg".toList
    [attr "xmlns" "http://www.w3.org/2000/svg", attr "width" "64", attr "height" "48",
      attr "viewBox" "0 0 64 48"] false,
   .opening "rect".toList
    [attr "x" "1", attr "y" "1", attr "width" "62", attr "height" "46", attr "rx" "6",
      attr "fill" "none", attr "stroke" "#888888", attr "stroke-width" "1.5",
      attr "stroke-dasharray" "5 3"] true,
   .opening "circle".toList
    [attr "cx" "22", attr "cy" "18", attr "r" "4", attr "fill" "none",
      attr "stroke" "#888888", attr "stroke-width" "1.5"] true,
   .opening "path".toList
    [attr "d" "M12 36 L26 24 L34 31 L40 26 L52 36", attr "fill" "none",
      attr "stroke" "#888888", attr "stroke-width" "1.5",
      attr "stroke-linejoin" "round", attr "stroke-linecap" "round"] true,
   .closing "svg".toList]

/-- The text of a placeholder. -/
def blockedLabel (alt : List Char) : List Char :=
  let title := (trim alt).take 200
  if title = [] then "Blocked image".toList else title

/-- Placeholder for a blocked or missing `<img>`. -/
def blockedImgPlaceholder (alt : List Char) : List Mark :=
  [.opening "details".toList [attr "class" "mc-blocked"] false,
   .opening "summary".toList [("title".toList, blockedLabel alt)] false] ++
  SVG_BADGE ++
  [.closing "summary".toList, .opening "span".toList [] false,
   .text (blockedLabel alt), .closing "span".toList, .closing "details".toList]

/-! ## Attributes -/

/-- Layout attributes that are safe on any allowed tag. -/
def presentational (isAlphanumeric : Char → Bool) (tag k v : List Char) :
    Option (List Char) :=
  let table := isTableTag tag
  let font := tag = "font".toList
  let number (low high : Nat) :=
    (parseSmallUint (trim v) low high).map fun n => n.repr.toList
  if k = "style".toList then sanitizeStyle v
  else if k = "dir".toList then keyword v ["ltr", "rtl", "auto"]
  else if k = "align".toList then keyword v ["left", "center", "right", "justify"]
  else if k = "valign".toList ∧ table then
    keyword v ["top", "middle", "bottom", "baseline"]
  else if k = "bgcolor".toList ∧ table then safeColor v
  else if k = "color".toList ∧ font then safeColor v
  else if k = "face".toList ∧ font then safeFontFace isAlphanumeric v
  else if k = "size".toList ∧ font then number 1 7
  else if isOneOf ["width", "height"] k ∧
      (tag = "img".toList ∨ tag = "col".toList ∨ table) then safeLength v
  else if isOneOf ["border", "cellpadding", "cellspacing"] k ∧
      tag = "table".toList then number 0 40
  else if isOneOf ["colspan", "rowspan"] k ∧ isOneOf ["td", "th"] tag then number 1 20
  else if k = "span".toList ∧ isOneOf ["col", "colgroup"] tag then number 1 20
  else none

/-- Attributes that go whatever they hold. -/
def neverKept (k : List Char) : Bool :=
  startsWith k "on" || k = "class".toList || k = "id".toList

/-- What one attribute of a tag leaves. -/
def keptAttr (isAlphanumeric : Char → Bool) (allowRemote : Bool) (name : List Char)
    (given : Attr) : List Attr :=
  let (k, v) := given
  if neverKept k then []
  else
    match presentational isAlphanumeric name k v with
    | some kept => [(k, kept)]
    | none =>
        if name = "a".toList ∧ k = "href".toList then
          match safeHref v with
          | some h => [("href".toList, h), attr "rel" "noopener"]
          | none => []
        else if name = "img".toList ∧ k = "src".toList then
          match safeImgSrc v allowRemote with
          | some s => [("src".toList, s)]
          | none => []
        else if name = "img".toList ∧ k = "alt".toList then
          [("alt".toList, v.take 200)]
        else []

/-- An attribute names a remote image that does not survive. -/
def blocksRemote (allowRemote : Bool) (name : List Char) (given : Attr) : Bool :=
  name = "img".toList && given.1 = "src".toList &&
    (safeImgSrc given.2 allowRemote).isNone && isHttpUrl (urldecodeTrim given.2)

/-! ## The walk -/

/-- What one turn of the loop reads: text up to the next `<`, or what begins with
one. -/
inductive Item
  | text (chunk : List Char)
  | markup (tag : Option Tag)
  deriving DecidableEq, Repr

/-- The items of a text without its first characters. -/
def scanFrom : Nat → List Char → List Item
  | _, [] => []
  | skipped + 1, _ :: rest => scanFrom skipped rest
  | 0, char :: rest =>
      if char = '<' then
        .markup (parseTag rest).1 ::
          scanFrom (rest.length - (parseTag rest).2.length) rest
      else
        .text (char :: rest.takeWhile (· != '<')) ::
          scanFrom (rest.takeWhile (· != '<')).length rest

def scan (text : List Char) : List Item :=
  scanFrom 0 text

/-- The state of the loop. -/
structure State where
  hadRemote : Bool
  /-- Open drop-content tags, innermost first. -/
  dropping : List (List Char)
  /-- Open tags of the output, innermost first. -/
  opened : List (List Char)
  deriving DecidableEq, Repr

def State.start : State :=
  ⟨false, [], []⟩

/-- What one turn of the loop does: what it pushes, where it leads, and whether
it looks at the length of the output afterwards. -/
structure Turn where
  pushes : List (List Mark)
  state : State
  checks : Bool
  deriving DecidableEq, Repr

/-- Whether a tag ends an open `<head>`. -/
def endsHead (name : List Char) (closing : Bool) : Bool :=
  if closing then isOneOf ["head", "body", "html", "br"] name
  else !headChildTag name

/-- Names compare lawfully. -/
local instance lawfulNames : LawfulBEq (List Char) := inferInstance

/-- A stack without its innermost entry of a name and what is inside it. -/
def closeTo (name : List Char) (stack : List (List Char)) : List (List Char) :=
  if name ∈ stack then (stack.dropWhile (· != name)).drop 1 else stack

/-- The entries of a stack that closing a name pops, innermost first. -/
def poppedBy (name : List Char) (stack : List (List Char)) : List (List Char) :=
  if name ∈ stack then stack.takeWhile (· != name) ++ [name] else []

/-- The drop stack without a head that this tag ends. -/
def headEnded (t : Tag) (dropping : List (List Char)) : List (List Char) :=
  if dropping.head? = some "head".toList ∧ endsHead t.name t.closing then
    dropping.drop 1
  else dropping

/-- The drop stack behind a tag. -/
def dropTag (t : Tag) (dropping : List (List Char)) : List (List Char) :=
  let dropping := headEnded t dropping
  if dropContentName t.name = false then dropping
  else if t.closing then closeTo t.name dropping
  else if t.selfClosing = false ∧ dropping.length < MAX_DROP_NESTING then
    t.name :: dropping
  else dropping

/-- The turn of a start tag that is allowed. -/
def openTag (isAlphanumeric : Char → Bool) (allowRemote : Bool) (t : Tag)
    (state : State) : Turn :=
  let attrs := t.attrs.flatMap (keptAttr isAlphanumeric allowRemote t.name)
  let state := { state with
    hadRemote := state.hadRemote || t.attrs.any (blocksRemote allowRemote t.name) }
  if t.name = "img".toList ∧ containsText (attrsHtml attrs) "src=" = false then
    match t.attrs.find? fun given => given.1 = "alt".toList with
    | some (_, alt) =>
        ⟨if trim alt = [] then [] else [blockedImgPlaceholder alt], state, false⟩
    | none =>
        ⟨if state.hadRemote then [blockedImgPlaceholder []] else [], state, false⟩
  else
    ⟨[[.opening t.name attrs false]],
      if voidTag t.name then state
      else { state with opened := (t.name :: state.opened).take 64 },
      true⟩

/-- The turn of a tag. -/
def tagTurn (isAlphanumeric : Char → Bool) (allowRemote : Bool) (t : Tag)
    (state : State) : Turn :=
  let dropped := { state with dropping := dropTag t state.dropping }
  if headEnded t state.dropping ≠ [] ∨ dropContentName t.name ∨
      allowedTag t.name = false then
    ⟨[], dropped, false⟩
  else if t.closing then
    if voidTag t.name then ⟨[], dropped, false⟩
    else
      ⟨(poppedBy t.name state.opened).map fun name => [.closing name],
        { dropped with opened := closeTo t.name state.opened }, false⟩
  else openTag isAlphanumeric allowRemote t dropped

/-- The drop stack behind a text. -/
def dropText (chunk : List Char) (dropping : List (List Char)) : List (List Char) :=
  if dropping.head? = some "head".toList ∧ trim chunk ≠ [] then dropping.drop 1
  else dropping

/-- One turn of the loop. -/
def turn (isAlphanumeric : Char → Bool) (allowRemote : Bool) (state : State) :
    Item → Turn
  | .markup none => ⟨[], state, false⟩
  | .markup (some t) => tagTurn isAlphanumeric allowRemote t state
  | .text chunk =>
      let dropping := dropText chunk state.dropping
      ⟨if dropping = [] then [[.text (decodeEntities chunk)]] else [],
        { state with dropping }, true⟩

/-- The loop, which ends early where the output is too long. -/
def walk (isAlphanumeric : Char → Bool) (allowRemote : Bool) :
    List Item → State → List Mark → State × List Mark
  | [], state, out => (state, out)
  | item :: items, state, out =>
      let turn := turn isAlphanumeric allowRemote state item
      let out := turn.pushes.foldl pushCapped out
      if turn.checks && decide (MAX_OUT_BYTES < outLen out) then (turn.state, out)
      else walk isAlphanumeric allowRemote items turn.state out

/-- The loop that closes the tags that are still open. -/
def closeAll : List (List Char) → List Mark → List Mark
  | [], out => out
  | name :: names, out =>
      if MAX_OUT_BYTES < outLen out then out
      else closeAll names (pushCapped out [.closing name])

/-- Truncate to at most so many bytes without splitting a character. -/
def truncateOnCharBoundary : Nat → List Char → List Char
  | _, [] => []
  | max, char :: rest =>
      if char.utf8Size ≤ max then
        char :: truncateOnCharBoundary (max - char.utf8Size) rest
      else []

structure Sanitized where
  html : List Char
  hadRemote : Bool
  deriving DecidableEq, Repr

/-- The marks of the output, and whether a remote image was blocked. -/
def sanitizeMarks (isAlphanumeric : Char → Bool) (raw : List Char)
    (allowRemote : Bool) : List Mark × Bool :=
  let raw := truncateOnCharBoundary MAX_HTML_BYTES raw
  let (state, out) := walk isAlphanumeric allowRemote (scan raw) .start []
  (closeAll state.opened out, state.hadRemote)

/-- Sanitize untrusted HTML. -/
def sanitize (isAlphanumeric : Char → Bool) (raw : List Char) (allowRemote : Bool) :
    Sanitized :=
  let (marks, hadRemote) := sanitizeMarks isAlphanumeric raw allowRemote
  ⟨marksHtml marks, hadRemote⟩

/-- Outgoing composer HTML: the same gate, but the user meant remote images. -/
def sanitizeForSend (isAlphanumeric : Char → Bool) (raw : List Char) : List Char :=
  (sanitize isAlphanumeric raw true).html

/-- The badge as the source spells it. -/
example : marksHtml SVG_BADGE =
    ["<svg xmlns=\"http://www.w3.org/2000", "/svg\" width=\"64\" height=\"48\" ",
      "viewBox=\"0 0 64 48\"><rect x=\"1\"", " y=\"1\" width=\"62\" height=\"46\"",
      " rx=\"6\" fill=\"none\" ", "stroke=\"#888888\" stroke-width", "=\"1.5\" ",
      "stroke-dasharray=\"5 3\"/><circle", " cx=\"22\" cy=\"18\" r=\"4\" fill",
      "=\"none\" stroke=\"#888888\" ", "stroke-width=\"1.5\"/><path ",
      "d=\"M12 36 L26 24 L34 31 L40 26", " L52 36\" fill=\"none\" stroke=",
      "\"#888888\" stroke-width=\"1.5\" ", "stroke-linejoin=\"round\" ",
      "stroke-linecap=\"round\"/></svg>"].flatMap String.toList := by decide +kernel

end Html
end Mailcore

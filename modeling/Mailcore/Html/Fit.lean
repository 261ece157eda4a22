import Mailcore.Html.Tags

/-!
# Fixed-width layouts on a narrow page

Designed mail says its width in pixel attributes and inline styles.  When the
layout is wider than the page, those fixed widths become caps.
-/

namespace Mailcore
namespace Html

open Text (asciiLower splitOnceAt parseUnsigned)

/-- The arithmetic in double precision that the rewrites rest on. -/
structure Floats where
  Px : Type
  /-- `str::parse` of digits with at most one dot. -/
  parsePx : List Char → Option Px
  /-- `ceil() as u32`. -/
  ceilPx : Px → Nat
  /-- `Display`. -/
  displayPx : Px → List Char
  /-- A number is written in digits, dots and signs, or as a word. -/
  plain : ∀ px, ∀ char ∈ displayPx px, char.isAlphanum ∨ char = '.' ∨ char = '-'
  /-- The byte of a colour channel, which may be a percentage. -/
  channel : List Char → Bool → Nat
  /-- The byte of an alpha value, which may be a percentage. -/
  alpha : List Char → Bool → Nat
  /-- `Rgb::inverted`. -/
  inverted : Nat → Nat

/-- `str::strip_suffix`. -/
def stripSuffix (back : String) (text : List Char) : Option (List Char) :=
  if back.toList.isSuffixOf text then
    some (text.take (text.length - back.toList.length))
  else none

/-- `str::trim_end`. -/
def trimEnd (text : List Char) : List Char :=
  text.rdropWhile Outbox.isWhitespace

/-- Cells take their width from the table once their own is gone. -/
def isCell : List Char → Bool :=
  isOneOf ["td", "th", "col"]

/-- A `width="600"` attribute, bare pixels only: the text around it and the
pixels. -/
def pixelAttr (attrs : List Char) : Option (List Char × List Char × Nat) := do
  let (front, value, back) ← findAttr attrs "width".toList
  if value = [] ∨ value.all Char.isDigit = false then none
  else
    let width ← parseUnsigned 10 (2 ^ 32) value
    some (front, back, width)

section Layout

variable (floats : Floats)

/-- A `width:600px` or `min-width:600px` declaration: which, and the pixels. -/
def pixelDecl (decl : List Char) : Option (Bool × floats.Px) := do
  let (prop, value) ← splitOnceAt [':'] decl
  let prop := asciiLower (trim prop)
  let min ←
    if prop = "width".toList then some false
    else if prop = "min-width".toList then some true
    else none
  let number := trimEnd (← stripSuffix "px" (trim value))
  let digits :=
    match splitOnceAt ['.'] number with
    | some (int, frac) => if frac = [] ∨ frac.all Char.isDigit = false then [] else int
    | none => number
  if digits = [] ∨ digits.all Char.isDigit = false then none
  else
    let px ← floats.parsePx number
    some (min, px)

/-- What one tag adds to the width of the layout. -/
def tagWidth (tag attrs : List Char) : Nat :=
  if tag = "img".toList then 0
  else
    let width := ((pixelAttr attrs).map fun found => found.2.2).getD 0
    match findAttr attrs "style".toList with
    | some (_, style, _) =>
        (((style.splitOn ';').filterMap (pixelDecl floats)).map
          fun found => floats.ceilPx found.2).foldl max width
    | none => width

/-- Widest fixed pixel width the layout asks for. -/
def layoutWidth (html : List Char) : Nat :=
  ((tags html).map fun found => tagWidth floats found.1 found.2).foldl max 0

/-- The style that stands for a width. -/
def capOf (width : List Char) : List Char :=
  "width:100%;max-width:".toList ++ (width ++ "px".toList)

/-- One declaration, loosened. -/
def fitDecl (cell : Bool) (decl : List Char) : List Char :=
  match pixelDecl floats decl with
  | some (min, px) => if cell || min then [] else capOf (floats.displayPx px)
  | none => decl

def fitStyle (cell : Bool) (style : List Char) : List Char :=
  [';'].intercalate ((style.splitOn ';').map (fitDecl floats cell))

/-- The attribute text without its pixel width, and the cap in its place. -/
def dropWidth (cell : Bool) (attrs : List Char) : List Char × List Char :=
  match pixelAttr attrs with
  | some (front, back, width) =>
      (if cell then [] else capOf width.repr.toList ++ [';'], front ++ back)
  | none => ([], attrs)

/-- The attribute text with its `style` loosened and the cap in front. -/
def fitStyleAttr (cell : Bool) (cap attrs : List Char) : List Char :=
  match findAttr attrs "style".toList with
  | some (front, style, back) =>
      front ++ (spelled "style".toList (cap ++ fitStyle floats cell style) ++ back)
  | none => if cap = [] then attrs else attrs ++ spelled "style".toList cap

/-- What `fit_widths` does with one tag. -/
def fitTag (tag attrs : List Char) : Option (List Char) :=
  if tag = "img".toList then none
  else
    let cell := isCell tag
    let (cap, attrs) := dropWidth cell attrs
    some (fitStyleAttr floats cell cap attrs)

/-- Fixed widths loosened so that the layout fits a narrow page. -/
def fitWidths (html : List Char) : List Char :=
  mapTags (fitTag floats) html

end Layout

end Html
end Mailcore

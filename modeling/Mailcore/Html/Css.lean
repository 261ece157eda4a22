import Mailcore.Html.Tags

/-!
# Styles and layout attributes

Which inline declarations and presentational attributes survive: an allow-list
of properties, and no value that can fetch, run, or hide either.
-/

namespace Mailcore
namespace Html

open Text (asciiLower parseUnsigned readNumeral)

/-- Longest `style` value examined. -/
def MAX_STYLE_IN : Nat := 4000

/-- Longest `style` value emitted. -/
def MAX_STYLE_OUT : Nat := 1500

def allowedProperty : List Char → Bool :=
  isOneOf ["color", "background", "background-color", "font", "font-family",
    "font-size", "font-style", "font-weight", "font-variant", "text-align",
    "text-decoration", "text-indent", "text-transform", "line-height",
    "letter-spacing", "word-spacing", "white-space", "word-break", "word-wrap",
    "overflow-wrap", "vertical-align", "direction", "width", "min-width",
    "max-width", "height", "min-height", "max-height", "margin", "margin-top",
    "margin-right", "margin-bottom", "margin-left", "padding", "padding-top",
    "padding-right", "padding-bottom", "padding-left", "border", "border-top",
    "border-right", "border-bottom", "border-left", "border-color",
    "border-style", "border-width", "border-radius", "border-collapse",
    "border-spacing", "table-layout", "list-style-type", "display", "float",
    "clear", "opacity", "overflow", "mso-hide"]

/-- `display` values that stay in normal flow. -/
def allowedDisplay : List Char → Bool :=
  isOneOf ["block", "inline", "inline-block", "none", "table", "table-row",
    "table-cell", "list-item"]

def safeValue (value : List Char) : Bool :=
  let low := asciiLower value
  !value.any (fun char => ['\\', '<', '>', '@', '\x7b', '\x7d'].contains char) &&
    ["/*", "url", "image", "expression", "javascript", "behavior", "binding",
      "var(", "attr("].all fun part => !containsText low part

/-! ## Opacity -/

/-- What `f32::from_str` reads: a decimal number, an infinity or no number. -/
inductive Reading
  | number (negative : Bool) (digits : Nat) (exponent : Int)
  | infinite (negative : Bool)
  | nan
  deriving DecidableEq, Repr

/-- A text without its sign, and whether that is a minus. -/
def signed : List Char → Bool × List Char
  | '-' :: rest => (true, rest)
  | '+' :: rest => (false, rest)
  | rest => (false, rest)

/-- The power of ten behind the digits of a number. -/
def readExponent : List Char → Option Int
  | [] => some 0
  | 'e' :: rest => do
      let (negative, digits) := signed rest
      if digits = [] then none
      else
        let value ← readNumeral 10 digits
        some (if negative then -value else value)
  | _ => none

/-- The number a text spells. -/
def readFloat (text : List Char) : Option Reading :=
  let (negative, body) := signed text
  let low := asciiLower body
  if low = "inf".toList ∨ low = "infinity".toList then some (.infinite negative)
  else if low = "nan".toList then some .nan
  else do
    let whole := low.takeWhile Char.isDigit
    let rest := low.dropWhile Char.isDigit
    let (fraction, rest) :=
      match rest with
      | '.' :: rest => (rest.takeWhile Char.isDigit, rest.dropWhile Char.isDigit)
      | _ => ([], rest)
    if whole = [] ∧ fraction = [] then none
    else
      let digits ← readNumeral 10 (whole ++ fraction)
      let exponent ← readExponent rest
      some (.number negative digits (exponent - fraction.length))

/-- A reading is at least a fraction. -/
def Reading.atLeast (num den : Nat) : Reading → Bool
  | .number false digits exponent =>
      if 0 ≤ exponent then decide (num ≤ digits * 10 ^ exponent.toNat * den)
      else decide (num * 10 ^ (-exponent).toNat ≤ digits * den)
  | .infinite false => true
  | _ => false

/-- The opacity is at least `MIN_OPACITY`, which is `0.15` as a single float.
The fractions are the least values that round to it, of a plain number and of a
percentage that is divided by a hundred. -/
def keepsOpacity (value : List Char) : Bool :=
  let v := trim value
  if v.getLast? = some '%' then
    (readFloat (trim v.dropLast)).any (Reading.atLeast 31457279 (2 ^ 21))
  else (readFloat v).any (Reading.atLeast 20132659 (2 ^ 27))

/-- A declaration stays clear of the invisible-overlay trick. -/
def keepsBoxesApart (prop value : List Char) : Bool :=
  if startsWith prop "margin" then !value.contains '-'
  else if prop = "opacity".toList then keepsOpacity value
  else true

/-! ## Declarations -/

/-- The declaration that survives of one of a `style` value. -/
def keptDeclaration (decl : List Char) : Option (List Char) := do
  let (prop, value) ← Text.splitOnceAt [':'] decl
  let prop := asciiLower (trim prop)
  let value := trim value
  if value = [] ∨ allowedProperty prop = false ∨ safeValue value = false then none
  else if prop = "display".toList ∧ allowedDisplay (asciiLower value) = false then none
  else if keepsBoxesApart prop value = false then none
  else some (prop ++ ':' :: (value ++ [';']))

/-- The loop of `sanitize_style` over the declarations. -/
def keptDeclarations (out : List Char) : List (List Char) → List Char
  | [] => out
  | decl :: decls =>
      match keptDeclaration decl with
      | none => keptDeclarations out decls
      | some piece =>
          if MAX_STYLE_OUT < byteLen out + byteLen piece then out
          else keptDeclarations (out ++ piece) decls

/-- Filter one `style` attribute value down to allowed declarations. -/
def sanitizeStyle (raw : List Char) : Option (List Char) :=
  let decoded := decodeEntities raw
  if MAX_STYLE_IN < byteLen decoded then none
  else
    let out := keptDeclarations [] (decoded.splitOn ';')
    if out = [] then none else some out

/-! ## Attributes -/

/-- `bgcolor` and `color`. -/
def safeColor (raw : List Char) : Option (List Char) :=
  let v := trim raw
  let ok :=
    match v with
    | '#' :: hex =>
        (byteLen hex = 3 || byteLen hex = 6) &&
          hex.all fun char => (Text.digitValue 16 char).isSome
    | _ => v ≠ [] && byteLen v ≤ 20 && v.all Char.isAlpha
  if ok then some v else none

/-- A text, reversed, without the `px` at its end. -/
def dropPx : List Char → List Char
  | 'x' :: 'p' :: rest => dropPx rest
  | text => text

/-- Pixel or percentage size for `width` and `height`, clamped. -/
def safeLength (raw : List Char) : Option (List Char) :=
  let v := trim raw
  if v.getLast? = some '%' then
    (parseUnsigned 10 (2 ^ 32) (trim v.dropLast)).map fun n =>
      (min n 100).repr.toList ++ ['%']
  else
    let d := (dropPx v.reverse).reverse
    if d = [] ∨ 8 ≤ byteLen d ∨ d.all Char.isDigit = false then none
    else (parseUnsigned 10 (2 ^ 32) d).map fun n => (min n 1200).repr.toList

/-- Keyword attributes: one of the allowed. -/
def keyword (raw : List Char) (allowed : List String) : Option (List Char) :=
  let v := asciiLower (trim raw)
  if isOneOf allowed v then some v else none

/-- `face` on `<font>`. -/
def safeFontFace (isAlphanumeric : Char → Bool) (raw : List Char) :
    Option (List Char) :=
  let v := trim raw
  if v ≠ [] ∧ byteLen v ≤ 100 ∧
      v.all (fun char => isAlphanumeric char || [' ', ',', '-', '\'', '"'].contains char)
  then some v else none

end Html
end Mailcore

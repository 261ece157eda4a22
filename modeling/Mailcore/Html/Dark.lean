import Mailcore.Html.Fit
import Mailcore.Html.Urls
import Mailcore.Text.FixedWidth

/-!
# The CSS colour keywords and their values
-/

namespace Mailcore
namespace Html
namespace Dark

/-- Keyword and colour, sorted for binary search. -/
def NAMED : List (String × Nat) :=
  [("aliceblue", 0xF0F8FF), ("antiquewhite", 0xFAEBD7), ("aqua", 0x00FFFF),
   ("aquamarine", 0x7FFFD4), ("azure", 0xF0FFFF), ("beige", 0xF5F5DC), ("bisque", 0xFFE4C4),
   ("black", 0x000000), ("blanchedalmond", 0xFFEBCD), ("blue", 0x0000FF),
   ("blueviolet", 0x8A2BE2), ("brown", 0xA52A2A), ("burlywood", 0xDEB887),
   ("cadetblue", 0x5F9EA0), ("chartreuse", 0x7FFF00), ("chocolate", 0xD2691E),
   ("coral", 0xFF7F50), ("cornflowerblue", 0x6495ED), ("cornsilk", 0xFFF8DC),
   ("crimson", 0xDC143C), ("cyan", 0x00FFFF), ("darkblue", 0x00008B), ("darkcyan", 0x008B8B),
   ("darkgoldenrod", 0xB8860B), ("darkgray", 0xA9A9A9), ("darkgreen", 0x006400),
   ("darkgrey", 0xA9A9A9), ("darkkhaki", 0xBDB76B), ("darkmagenta", 0x8B008B),
   ("darkolivegreen", 0x556B2F), ("darkorange", 0xFF8C00), ("darkorchid", 0x9932CC),
   ("darkred", 0x8B0000), ("darksalmon", 0xE9967A), ("darkseagreen", 0x8FBC8F),
   ("darkslateblue", 0x483D8B), ("darkslategray", 0x2F4F4F), ("darkslategrey", 0x2F4F4F),
   ("darkturquoise", 0x00CED1), ("darkviolet", 0x9400D3), ("deeppink", 0xFF1493),
   ("deepskyblue", 0x00BFFF), ("dimgray", 0x696969), ("dimgrey", 0x696969),
   ("dodgerblue", 0x1E90FF), ("firebrick", 0xB22222), ("floralwhite", 0xFFFAF0),
   ("forestgreen", 0x228B22), ("fuchsia", 0xFF00FF), ("gainsboro", 0xDCDCDC),
   ("ghostwhite", 0xF8F8FF), ("gold", 0xFFD700), ("goldenrod", 0xDAA520), ("gray", 0x808080),
   ("green", 0x008000), ("greenyellow", 0xADFF2F), ("grey", 0x808080), ("honeydew", 0xF0FFF0),
   ("hotpink", 0xFF69B4), ("indianred", 0xCD5C5C), ("indigo", 0x4B0082), ("ivory", 0xFFFFF0),
   ("khaki", 0xF0E68C), ("lavender", 0xE6E6FA), ("lavenderblush", 0xFFF0F5),
   ("lawngreen", 0x7CFC00), ("lemonchiffon", 0xFFFACD), ("lightblue", 0xADD8E6),
   ("lightcoral", 0xF08080), ("lightcyan", 0xE0FFFF), ("lightgoldenrodyellow", 0xFAFAD2),
   ("lightgray", 0xD3D3D3), ("lightgreen", 0x90EE90), ("lightgrey", 0xD3D3D3),
   ("lightpink", 0xFFB6C1), ("lightsalmon", 0xFFA07A), ("lightseagreen", 0x20B2AA),
   ("lightskyblue", 0x87CEFA), ("lightslategray", 0x778899), ("lightslategrey", 0x778899),
   ("lightsteelblue", 0xB0C4DE), ("lightyellow", 0xFFFFE0), ("lime", 0x00FF00),
   ("limegreen", 0x32CD32), ("linen", 0xFAF0E6), ("magenta", 0xFF00FF), ("maroon", 0x800000),
   ("mediumaquamarine", 0x66CDAA), ("mediumblue", 0x0000CD), ("mediumorchid", 0xBA55D3),
   ("mediumpurple", 0x9370DB), ("mediumseagreen", 0x3CB371), ("mediumslateblue", 0x7B68EE),
   ("mediumspringgreen", 0x00FA9A), ("mediumturquoise", 0x48D1CC), ("mediumvioletred", 0xC71585),
   ("midnightblue", 0x191970), ("mintcream", 0xF5FFFA), ("mistyrose", 0xFFE4E1),
   ("moccasin", 0xFFE4B5), ("navajowhite", 0xFFDEAD), ("navy", 0x000080), ("oldlace", 0xFDF5E6),
   ("olive", 0x808000), ("olivedrab", 0x6B8E23), ("orange", 0xFFA500), ("orangered", 0xFF4500),
   ("orchid", 0xDA70D6), ("palegoldenrod", 0xEEE8AA), ("palegreen", 0x98FB98),
   ("paleturquoise", 0xAFEEEE), ("palevioletred", 0xDB7093), ("papayawhip", 0xFFEFD5),
   ("peachpuff", 0xFFDAB9), ("peru", 0xCD853F), ("pink", 0xFFC0CB), ("plum", 0xDDA0DD),
   ("powderblue", 0xB0E0E6), ("purple", 0x800080), ("rebeccapurple", 0x663399), ("red", 0xFF0000),
   ("rosybrown", 0xBC8F8F), ("royalblue", 0x4169E1), ("saddlebrown", 0x8B4513),
   ("salmon", 0xFA8072), ("sandybrown", 0xF4A460), ("seagreen", 0x2E8B57), ("seashell", 0xFFF5EE),
   ("sienna", 0xA0522D), ("silver", 0xC0C0C0), ("skyblue", 0x87CEEB), ("slateblue", 0x6A5ACD),
   ("slategray", 0x708090), ("slategrey", 0x708090), ("snow", 0xFFFAFA),
   ("springgreen", 0x00FF7F), ("steelblue", 0x4682B4), ("tan", 0xD2B48C), ("teal", 0x008080),
   ("thistle", 0xD8BFD8), ("tomato", 0xFF6347), ("turquoise", 0x40E0D0), ("violet", 0xEE82EE),
   ("wheat", 0xF5DEB3), ("white", 0xFFFFFF), ("whitesmoke", 0xF5F5F5), ("yellow", 0xFFFF00),
   ("yellowgreen", 0x9ACD32)]

/-- A colour keyword's value, as the binary search of the sorted table finds it. -/
def named (word : List Char) : Option Nat :=
  (NAMED.find? fun entry => entry.1 = String.ofList (Text.asciiLower word)).map (·.2)

end Dark
end Html
end Mailcore

/-!
## The dark rewrite of a designed mail

The sender's colours, inverted.  Every author colour sits in an inline `style` or
a `color` or `bgcolor` attribute, and only those change.
-/

namespace Mailcore
namespace Html
namespace Dark

open Text (asciiLower splitOnceAt digitValue readNumeral)

/-- Properties whose value must be one colour to convert. -/
def FLAT : List String :=
  ["color", "background-color", "background", "border-top-color",
    "border-right-color", "border-bottom-color", "border-left-color",
    "border-color", "outline-color", "text-decoration-color", "fill", "stroke"]

/-- Shorthands that carry width and style next to the colour. -/
def SHORTHAND : List String :=
  ["border", "border-top", "border-right", "border-bottom", "border-left", "outline"]

/-! ## Colours -/

def isHexDigit (char : Char) : Bool :=
  (digitValue 16 char).isSome

/-- `Rgb::parse`: `#rgb` or `#rrggbb`. -/
def parseRgb (css : List Char) : Option Nat :=
  match trim css with
  | '#' :: hex =>
      if hex.all isHexDigit = false then none
      else if hex.length = 6 then readNumeral 16 hex
      else if hex.length = 3 then readNumeral 16 (hex.flatMap fun char => [char, char])
      else none
  | _ => none

/-- `Rgb::css`: `#rrggbb`. -/
def css (color : Nat) : List Char :=
  '#' :: [5, 4, 3, 2, 1, 0].map fun place => Nat.digitChar (color / 16 ^ place % 16)

/-- A number with at most one dot inside, and whether it is a percentage. -/
def colorNumber (text : List Char) : Option (List Char × Bool) :=
  let (n, pct) :=
    match stripSuffix "%" text with
    | some n => (n, true)
    | none => (text, false)
  if n ≠ [] ∧ n.head? ≠ some '.' ∧ n.getLast? ≠ some '.' ∧
      n.all (fun char => char.isDigit || char = '.') ∧ n.count '.' ≤ 1 then
    some (n, pct)
  else none

/-- `str::strip_prefix`. -/
def stripPrefix (front : String) (text : List Char) : Option (List Char) :=
  if front.toList.isPrefixOf text then some (text.drop front.toList.length) else none

section Convert

variable (floats : Floats)

/-- The channels of `rgb()` and `rgba()`. -/
def parseChannels (args : List Char) : Option (Nat × Nat) :=
  match (args.splitOn ',').map trim with
  | red :: green :: blue :: rest => do
      let red ← colorNumber red
      let green ← colorNumber green
      let blue ← colorNumber blue
      let byte (number : List Char × Bool) := floats.channel number.1 number.2
      let color := (byte red * 256 + byte green) * 256 + byte blue
      match rest with
      | [] => some (color, 255)
      | [alpha] => do
          let alpha ← colorNumber alpha
          some (color, floats.alpha alpha.1 alpha.2)
      | _ => none
  | _ => none

/-- One CSS colour value as a colour and its alpha. -/
def parseColor (value : List Char) : Option (Nat × Nat) :=
  let v := trim value
  match v with
  | '#' :: hex =>
      if hex.all isHexDigit = false then none
      else if hex.length = 3 ∨ hex.length = 6 then (parseRgb v).map fun c => (c, 255)
      else if hex.length = 8 then do
        let rgb ← readNumeral 16 (hex.take 6)
        let a ← readNumeral 16 (hex.drop 6)
        some (rgb, a)
      else none
  | _ =>
      let low := asciiLower v
      let args := ((stripPrefix "rgba(" low).or (stripPrefix "rgb(" low)).bind
        (stripSuffix ")")
      match args with
      | some args => parseChannels floats args
      | none => (named v).map fun c => (c, 255)

/-- An alpha value to three decimals, without the zeros at its end. -/
def alphaText (alpha : Nat) : List Char :=
  let thousandths := (2000 * alpha + 255) / 510
  let text := (thousandths / 1000).repr.toList ++
    '.' :: Text.digits 3 (thousandths % 1000)
  let text := text.rdropWhile (· = '0')
  if text.getLast? = some '.' then text ++ ['0'] else text

/-- A colour back to CSS: opaque as `#rrggbb`, translucent as `rgba(...)`. -/
def toCss (color alpha : Nat) : List Char :=
  if alpha = 255 then css color
  else
    "rgba(".toList ++ ((color / 2 ^ 16 % 256).repr.toList ++
      ',' :: ((color / 2 ^ 8 % 256).repr.toList ++
      ',' :: ((color % 256).repr.toList ++ ',' :: (alphaText alpha ++ [')']))))

/-- One colour value inverted, keeping a trailing `!important`. -/
def convertValue (value : List Char) : Option (List Char) :=
  let trimmed := trimEnd value
  let (v, important) :=
    match stripSuffix "!important" (asciiLower trimmed) with
    | some rest =>
        let cut := (trimEnd rest).length
        (trimmed.take cut, trimmed.drop cut)
    | none => (value, [])
  (parseColor floats v).map fun color =>
    toCss (floats.inverted color.1) color.2 ++ important

def wordChar (char : Char) : Bool :=
  char.isAlphanum || char = '_'

/-- How long the token is that a shorthand goes on with, if one begins here. -/
def tokenLen (prev : Option Char) (char : Char) (rest : List Char) : Option Nat :=
  let low := asciiLower (char :: rest)
  if char = '#' then
    let n := (rest.takeWhile isHexDigit).length
    if 3 ≤ n ∧ n ≤ 8 ∧ (rest.drop n).head?.any wordChar = false then some (1 + n)
    else none
  else if startsWith low "rgb(" ∨ startsWith low "rgba(" then
    if ')' ∈ char :: rest then some (((char :: rest).takeWhile (· != ')')).length + 1)
    else none
  else if char.isAlpha ∧ prev.any wordChar = false then
    let n := ((char :: rest).takeWhile Char.isAlpha).length
    if ((char :: rest).drop n).head?.any wordChar = false then some n else none
  else none

/-- A token with its colour inverted. -/
def convertToken (token : List Char) : List Char :=
  let isColor := startsWith token "#" || startsWith (asciiLower token) "rgb" ||
    (named token).isSome
  if isColor then (convertValue floats token).getD token else token

/-- The loop of `convert_tokens`.  Each turn reads a character. -/
def convertTokensIn : Nat → Option Char → List Char → List Char
  | 0, _, _ => []
  | _, _, [] => []
  | fuel + 1, prev, char :: rest =>
      match tokenLen prev char rest with
      | some n =>
          let token := (char :: rest).take n
          convertToken floats token ++
            convertTokensIn fuel token.getLast? ((char :: rest).drop n)
      | none => char :: convertTokensIn fuel (some char) rest

/-- Inside a shorthand: replace every colour token, keep widths and styles. -/
def convertTokens (value : List Char) : List Char :=
  convertTokensIn floats value.length none value

/-- One declaration with its colours inverted. -/
def convertDecl (decl : List Char) : List Char :=
  match splitOnceAt [':'] decl with
  | none => decl
  | some (prop, value) =>
      let name := asciiLower (trim prop)
      if isOneOf FLAT name then
        match convertValue floats value with
        | some v => trim prop ++ ':' :: v
        | none => decl
      else if isOneOf SHORTHAND name ∧ containsText value "url(" = false ∧
          containsText value "gradient" = false then
        let v := convertTokens floats (trim value)
        if v = trim value then decl else trim prop ++ ':' :: v
      else decl

/-- One `style` value with its colours inverted. -/
def convertStyle (style : List Char) : List Char :=
  [';'].intercalate ((style.splitOn ';').map (convertDecl floats))

/-- The attribute text with its `style` converted. -/
def darkenStyle (attrs : List Char) : List Char :=
  match findAttr attrs "style".toList with
  | some (front, style, back) =>
      front ++ (spelled "style".toList (convertStyle floats style) ++ back)
  | none => attrs

/-- The attribute text with one colour attribute converted. -/
def darkenAttr (attrs name : List Char) : List Char :=
  match findAttr attrs name with
  | some (front, value, back) =>
      match convertValue floats value with
      | some v => front ++ (spelled name v ++ back)
      | none => attrs
  | none => attrs

def darkenAttrs (attrs : List Char) : List Char :=
  darkenAttr floats (darkenAttr floats (darkenStyle floats attrs) "bgcolor".toList)
    "color".toList

/-- The sender's colours inverted for a dark page. -/
def darkenColors (html : List Char) : List Char :=
  mapTags (fun _ attrs => some (darkenAttrs floats attrs)) html

end Convert

end Dark
end Html
end Mailcore

import Mailcore.Text.Numeral
import Mathlib.Algebra.Ring.Nat
import Mathlib.Data.List.Chain

/-!
# The named entities

The 252 character entities of HTML 4, by name.
-/

namespace Mailcore
namespace Html

def NAMED : List (String × Char) :=
  [("AElig", '\u00c6'), ("Aacute", '\u00c1'), ("Acirc", '\u00c2'), ("Agrave", '\u00c0'),
   ("Alpha", '\u0391'), ("Aring", '\u00c5'), ("Atilde", '\u00c3'), ("Auml", '\u00c4'),
   ("Beta", '\u0392'), ("Ccedil", '\u00c7'), ("Chi", '\u03a7'), ("Dagger", '\u2021'),
   ("Delta", '\u0394'), ("ETH", '\u00d0'), ("Eacute", '\u00c9'), ("Ecirc", '\u00ca'),
   ("Egrave", '\u00c8'), ("Epsilon", '\u0395'), ("Eta", '\u0397'), ("Euml", '\u00cb'),
   ("Gamma", '\u0393'), ("Iacute", '\u00cd'), ("Icirc", '\u00ce'), ("Igrave", '\u00cc'),
   ("Iota", '\u0399'), ("Iuml", '\u00cf'), ("Kappa", '\u039a'), ("Lambda", '\u039b'),
   ("Mu", '\u039c'), ("Ntilde", '\u00d1'), ("Nu", '\u039d'), ("OElig", '\u0152'),
   ("Oacute", '\u00d3'), ("Ocirc", '\u00d4'), ("Ograve", '\u00d2'), ("Omega", '\u03a9'),
   ("Omicron", '\u039f'), ("Oslash", '\u00d8'), ("Otilde", '\u00d5'), ("Ouml", '\u00d6'),
   ("Phi", '\u03a6'), ("Pi", '\u03a0'), ("Prime", '\u2033'), ("Psi", '\u03a8'),
   ("Rho", '\u03a1'), ("Scaron", '\u0160'), ("Sigma", '\u03a3'), ("THORN", '\u00de'),
   ("Tau", '\u03a4'), ("Theta", '\u0398'), ("Uacute", '\u00da'), ("Ucirc", '\u00db'),
   ("Ugrave", '\u00d9'), ("Upsilon", '\u03a5'), ("Uuml", '\u00dc'), ("Xi", '\u039e'),
   ("Yacute", '\u00dd'), ("Yuml", '\u0178'), ("Zeta", '\u0396'), ("aacute", '\u00e1'),
   ("acirc", '\u00e2'), ("acute", '\u00b4'), ("aelig", '\u00e6'), ("agrave", '\u00e0'),
   ("alefsym", '\u2135'), ("alpha", '\u03b1'), ("amp", '\u0026'), ("and", '\u2227'),
   ("ang", '\u2220'), ("aring", '\u00e5'), ("asymp", '\u2248'), ("atilde", '\u00e3'),
   ("auml", '\u00e4'), ("bdquo", '\u201e'), ("beta", '\u03b2'), ("brvbar", '\u00a6'),
   ("bull", '\u2022'), ("cap", '\u2229'), ("ccedil", '\u00e7'), ("cedil", '\u00b8'),
   ("cent", '\u00a2'), ("chi", '\u03c7'), ("circ", '\u02c6'), ("clubs", '\u2663'),
   ("cong", '\u2245'), ("copy", '\u00a9'), ("crarr", '\u21b5'), ("cup", '\u222a'),
   ("curren", '\u00a4'), ("dArr", '\u21d3'), ("dagger", '\u2020'), ("darr", '\u2193'),
   ("deg", '\u00b0'), ("delta", '\u03b4'), ("diams", '\u2666'), ("divide", '\u00f7'),
   ("eacute", '\u00e9'), ("ecirc", '\u00ea'), ("egrave", '\u00e8'), ("empty", '\u2205'),
   ("emsp", '\u2003'), ("ensp", '\u2002'), ("epsilon", '\u03b5'), ("equiv", '\u2261'),
   ("eta", '\u03b7'), ("eth", '\u00f0'), ("euml", '\u00eb'), ("euro", '\u20ac'),
   ("exist", '\u2203'), ("fnof", '\u0192'), ("forall", '\u2200'), ("frac12", '\u00bd'),
   ("frac14", '\u00bc'), ("frac34", '\u00be'), ("frasl", '\u2044'), ("gamma", '\u03b3'),
   ("ge", '\u2265'), ("gt", '\u003e'), ("hArr", '\u21d4'), ("harr", '\u2194'),
   ("hearts", '\u2665'), ("hellip", '\u2026'), ("iacute", '\u00ed'), ("icirc", '\u00ee'),
   ("iexcl", '\u00a1'), ("igrave", '\u00ec'), ("image", '\u2111'), ("infin", '\u221e'),
   ("int", '\u222b'), ("iota", '\u03b9'), ("iquest", '\u00bf'), ("isin", '\u2208'),
   ("iuml", '\u00ef'), ("kappa", '\u03ba'), ("lArr", '\u21d0'), ("lambda", '\u03bb'),
   ("lang", '\u2329'), ("laquo", '\u00ab'), ("larr", '\u2190'), ("lceil", '\u2308'),
   ("ldquo", '\u201c'), ("le", '\u2264'), ("lfloor", '\u230a'), ("lowast", '\u2217'),
   ("loz", '\u25ca'), ("lrm", '\u200e'), ("lsaquo", '\u2039'), ("lsquo", '\u2018'),
   ("lt", '\u003c'), ("macr", '\u00af'), ("mdash", '\u2014'), ("micro", '\u00b5'),
   ("middot", '\u00b7'), ("minus", '\u2212'), ("mu", '\u03bc'), ("nabla", '\u2207'),
   ("nbsp", '\u00a0'), ("ndash", '\u2013'), ("ne", '\u2260'), ("ni", '\u220b'),
   ("not", '\u00ac'), ("notin", '\u2209'), ("nsub", '\u2284'), ("ntilde", '\u00f1'),
   ("nu", '\u03bd'), ("oacute", '\u00f3'), ("ocirc", '\u00f4'), ("oelig", '\u0153'),
   ("ograve", '\u00f2'), ("oline", '\u203e'), ("omega", '\u03c9'), ("omicron", '\u03bf'),
   ("oplus", '\u2295'), ("or", '\u2228'), ("ordf", '\u00aa'), ("ordm", '\u00ba'),
   ("oslash", '\u00f8'), ("otilde", '\u00f5'), ("otimes", '\u2297'), ("ouml", '\u00f6'),
   ("para", '\u00b6'), ("part", '\u2202'), ("permil", '\u2030'), ("perp", '\u22a5'),
   ("phi", '\u03c6'), ("pi", '\u03c0'), ("piv", '\u03d6'), ("plusmn", '\u00b1'),
   ("pound", '\u00a3'), ("prime", '\u2032'), ("prod", '\u220f'), ("prop", '\u221d'),
   ("psi", '\u03c8'), ("quot", '\u0022'), ("rArr", '\u21d2'), ("radic", '\u221a'),
   ("rang", '\u232a'), ("raquo", '\u00bb'), ("rarr", '\u2192'), ("rceil", '\u2309'),
   ("rdquo", '\u201d'), ("real", '\u211c'), ("reg", '\u00ae'), ("rfloor", '\u230b'),
   ("rho", '\u03c1'), ("rlm", '\u200f'), ("rsaquo", '\u203a'), ("rsquo", '\u2019'),
   ("sbquo", '\u201a'), ("scaron", '\u0161'), ("sdot", '\u22c5'), ("sect", '\u00a7'),
   ("shy", '\u00ad'), ("sigma", '\u03c3'), ("sigmaf", '\u03c2'), ("sim", '\u223c'),
   ("spades", '\u2660'), ("sub", '\u2282'), ("sube", '\u2286'), ("sum", '\u2211'),
   ("sup", '\u2283'), ("sup1", '\u00b9'), ("sup2", '\u00b2'), ("sup3", '\u00b3'),
   ("supe", '\u2287'), ("szlig", '\u00df'), ("tau", '\u03c4'), ("there4", '\u2234'),
   ("theta", '\u03b8'), ("thetasym", '\u03d1'), ("thinsp", '\u2009'), ("thorn", '\u00fe'),
   ("tilde", '\u02dc'), ("times", '\u00d7'), ("trade", '\u2122'), ("uArr", '\u21d1'),
   ("uacute", '\u00fa'), ("uarr", '\u2191'), ("ucirc", '\u00fb'), ("ugrave", '\u00f9'),
   ("uml", '\u00a8'), ("upsih", '\u03d2'), ("upsilon", '\u03c5'), ("uuml", '\u00fc'),
   ("weierp", '\u2118'), ("xi", '\u03be'), ("yacute", '\u00fd'), ("yen", '\u00a5'),
   ("yuml", '\u00ff'), ("zeta", '\u03b6'), ("zwj", '\u200d'), ("zwnj", '\u200c')]

/-- The binary search finds the one entry of the name. -/
def named (name : List Char) : Option Char :=
  NAMED.lookup (String.ofList name)

/-- The table is sorted for the binary search. -/
theorem isChain_NAMED : NAMED.IsChain fun first second => first.1 < second.1 := by
  decide +kernel

end Html
end Mailcore

/-!
## Entity decoding and escaping

Texts are sequences of characters.  The source works on their UTF-8 bytes, but
every byte it looks for is ASCII, so the two walks meet the same places; where
it counts bytes, so does this module.
-/

namespace Mailcore
namespace Html

open Text (parseUnsigned)

/-- `str::len`. -/
def byteLen (text : List Char) : Nat :=
  (text.map Char.utf8Size).sum

theorem byteLen_cons (char : Char) (text : List Char) :
    byteLen (char :: text) = char.utf8Size + byteLen text :=
  List.sum_cons

theorem byteLen_append (first second : List Char) :
    byteLen (first ++ second) = byteLen first + byteLen second := by
  rw [byteLen, List.map_append, List.sum_append]
  rfl

/-- How far past a `&` to look for the `;` that ends an entity. -/
def ENTITY_SCAN : Nat := 23

/-- What stands in front of the first `;` among the first bytes of a text. -/
def entityName : Nat → List Char → Option (List Char)
  | _, [] => none
  | room, char :: rest =>
      if room = 0 then none
      else if char = ';' then some []
      else (entityName (room - char.utf8Size) rest).map (char :: ·)

/-- The entities the decoder spells out itself. -/
def spelledOut : List (String × Char) :=
  [("&lt;", '<'), ("&LT;", '<'),
   ("&gt;", '>'), ("&GT;", '>'),
   ("&amp;", '&'), ("&AMP;", '&'),
   ("&quot;", '"'),
   ("&apos;", '\''), ("&#39;", '\''), ("&#x27;", '\''), ("&#X27;", '\''),
   ("&nbsp;", '\u00a0'), ("&NBSP;", '\u00a0'),
   ("&zwnj;", '\u200c'), ("&ZWNJ;", '\u200c'),
   ("&zwj;", '\u200d'), ("&ZWJ;", '\u200d'),
   ("&lrm;", '\u200e'), ("&LRM;", '\u200e'),
   ("&rlm;", '\u200f'), ("&RLM;", '\u200f'),
   ("&shy;", '\u00ad'), ("&SHY;", '\u00ad'),
   ("&#34;", '"'), ("&#x22;", '"'), ("&#X22;", '"'),
   ("&#60;", '<'), ("&#x3C;", '<'), ("&#x3c;", '<'),
   ("&#62;", '>'), ("&#x3E;", '>'), ("&#x3e;", '>'),
   ("&#38;", '&'), ("&#x26;", '&')]

/-- `char::is_control`. -/
def isControl (char : Char) : Bool :=
  decide (char.toNat < 0x20) ||
    decide (0x7F ≤ char.toNat) && decide (char.toNat < 0xA0)

/-- The numeric fallback, which refuses controls. -/
def numericEntity (num : List Char) : Option Char := do
  let value ←
    match num with
    | 'x' :: hex => parseUnsigned 16 (2 ^ 32) hex
    | 'X' :: hex => parseUnsigned 16 (2 ^ 32) hex
    | _ => parseUnsigned 10 (2 ^ 32) num
  let char ← if value.isValidChar then some (Char.ofNat value) else none
  if !isControl char || char = '\n' || char = '\t' then some char else none

/-- The character that the entity of a name stands for. -/
def entityChar (name : List Char) : Option Char :=
  ((spelledOut.lookup (String.ofList ('&' :: name ++ [';']))).or (named name)).or
    (match name with
      | '#' :: num => numericEntity num
      | _ => none)

/-- The entity whose `&` stands right before a text: the character it stands
for, and how many characters of the text belong to it. -/
def entityAt (text : List Char) : Option (Char × Nat) := do
  let name ← entityName ENTITY_SCAN text
  let char ← entityChar name
  some (char, name.length + 1)

/-- The decoding of a text without its first characters. -/
def decodeFrom : Nat → List Char → List Char
  | _, [] => []
  | skipped + 1, _ :: rest => decodeFrom skipped rest
  | 0, char :: rest =>
      if char = '&' then
        match entityAt rest with
        | some (decoded, length) => decoded :: decodeFrom length rest
        | none => '&' :: decodeFrom 0 rest
      else
        char :: decodeFrom 0 rest

/-- Decode character entities for URL decisions and text output. -/
def decodeEntities (text : List Char) : List Char :=
  decodeFrom 0 text

def escapeTextChar : Char → List Char
  | '&' => "&amp;".toList
  | '<' => "&lt;".toList
  | '>' => "&gt;".toList
  | char => [char]

def escapeText (text : List Char) : List Char :=
  text.flatMap escapeTextChar

def escapeAttrChar : Char → List Char
  | '&' => "&amp;".toList
  | '"' => "&quot;".toList
  | '<' => "&lt;".toList
  | '>' => "&gt;".toList
  | char => [char]

def escapeAttr (text : List Char) : List Char :=
  text.flatMap escapeAttrChar

/-! ## Decoding -/

@[simp] theorem decodeEntities_nil : decodeEntities [] = [] := rfl

theorem decodeFrom_eq (skipped : Nat) (text : List Char) :
    decodeFrom skipped text = decodeEntities (text.drop skipped) := by
  induction skipped generalizing text with
  | zero => rfl
  | succ skipped inductionHypothesis =>
      cases text with
      | nil => rfl
      | cons char text => exact inductionHypothesis text

theorem decodeEntities_cons
    {char : Char}
    (plain : char ≠ '&')
    (text : List Char) :
    decodeEntities (char :: text) = char :: decodeEntities text := by
  rw [decodeEntities, decodeFrom, if_neg plain]
  rfl

theorem decodeEntities_entity
    {text : List Char} {char : Char} {length : Nat}
    (entity : entityAt text = some (char, length)) :
    decodeEntities ('&' :: text) = char :: decodeEntities (text.drop length) := by
  rw [decodeEntities, decodeFrom, if_pos rfl, entity]
  exact congrArg _ (decodeFrom_eq length text)

theorem decodeEntities_bare
    {text : List Char}
    (bare : entityAt text = none) :
    decodeEntities ('&' :: text) = '&' :: decodeEntities text := by
  rw [decodeEntities, decodeFrom, if_pos rfl, bare]
  rfl

/-- A text without a `&` decodes to itself. -/
theorem decodeEntities_append
    {text : List Char}
    (plain : '&' ∉ text)
    (rest : List Char) :
    decodeEntities (text ++ rest) = text ++ decodeEntities rest := by
  induction text with
  | nil => rfl
  | cons char text inductionHypothesis =>
      have differs : char ≠ '&' := by
        rintro rfl
        exact plain List.mem_cons_self
      rw [List.cons_append, decodeEntities_cons differs,
        inductionHypothesis fun member => plain (List.mem_cons_of_mem _ member),
        List.cons_append]

/-- The name of an entity is followed by its `;`. -/
theorem eq_append_of_entityName
    {room : Nat} {text name : List Char}
    (found : entityName room text = some name) :
    ∃ rest, text = name ++ ';' :: rest := by
  induction text generalizing room name with
  | nil => simp [entityName] at found
  | cons char text inductionHypothesis =>
      rw [entityName] at found
      split_ifs at found with _ ends
      · obtain rfl := Option.some.inj found
        exact ⟨text, by rw [ends, List.nil_append]⟩
      · obtain ⟨name, within, rfl⟩ := Option.map_eq_some_iff.mp found
        obtain ⟨rest, rfl⟩ := inductionHypothesis within
        exact ⟨rest, rfl⟩

/-- What an entity right after a `&` spans. -/
theorem eq_append_of_entityAt
    {text : List Char} {char : Char} {length : Nat}
    (entity : entityAt text = some (char, length)) :
    ∃ name, entityChar name = some char ∧
      text = name ++ ';' :: text.drop length := by
  unfold entityAt at entity
  simp only [Option.bind_eq_bind, Option.bind_eq_some_iff, Option.some.injEq,
    Prod.mk.injEq] at entity
  obtain ⟨name, found, decoded, meaning, rfl, rfl⟩ := entity
  obtain ⟨rest, rfl⟩ := eq_append_of_entityName found
  refine ⟨name, meaning, ?_⟩
  simp [List.drop_append]

/-! ## Escaping and decoding -/

theorem entityName_append
    {room : Nat} {name : List Char}
    (short : byteLen name < room)
    (whole : ';' ∉ name)
    (rest : List Char) :
    entityName room (name ++ ';' :: rest) = some name := by
  induction name generalizing room with
  | nil => simp [entityName, Nat.ne_of_gt (Nat.zero_lt_of_lt short)]
  | cons char name inductionHypothesis =>
      have differs : char ≠ ';' := by
        rintro rfl
        exact whole List.mem_cons_self
      have within : byteLen name < room - char.utf8Size := by
        simp only [byteLen, List.map_cons, List.sum_cons] at short ⊢
        omega
      rw [List.cons_append, entityName,
        if_neg (Nat.ne_of_gt (Nat.zero_lt_of_lt short)), if_neg differs,
        inductionHypothesis within fun member => whole (List.mem_cons_of_mem _ member)]
      rfl

/-- An entity decodes to what its name stands for. -/
theorem decodeEntities_entityText
    {name : List Char} {char : Char}
    (meaning : entityChar name = some char)
    (short : byteLen name < ENTITY_SCAN)
    (whole : ';' ∉ name)
    (rest : List Char) :
    decodeEntities ('&' :: (name ++ ';' :: rest)) = char :: decodeEntities rest := by
  have entity : entityAt (name ++ ';' :: rest) = some (char, name.length + 1) := by
    simp [entityAt, entityName_append short whole rest, meaning]
  have behind : (name ++ ';' :: rest).drop (name.length + 1) = rest := by
    rw [List.append_cons]
    exact List.drop_left' (by simp)
  rw [decodeEntities_entity entity, behind]

theorem entityChar_amp : entityChar "amp".toList = some '&' := rfl

theorem entityChar_quot : entityChar "quot".toList = some '"' := rfl

theorem entityChar_lt : entityChar "lt".toList = some '<' := rfl

theorem entityChar_gt : entityChar "gt".toList = some '>' := rfl

theorem decodeEntities_escapeAttrChar (char : Char) (rest : List Char) :
    decodeEntities (escapeAttrChar char ++ rest) =
      char :: decodeEntities rest := by
  unfold escapeAttrChar
  split
  · exact decodeEntities_entityText entityChar_amp (by decide) (by decide) rest
  · exact decodeEntities_entityText entityChar_quot (by decide) (by decide) rest
  · exact decodeEntities_entityText entityChar_lt (by decide) (by decide) rest
  · exact decodeEntities_entityText entityChar_gt (by decide) (by decide) rest
  · rename_i other _ _ _
    exact decodeEntities_cons (fun same => other same) rest

theorem decodeEntities_escapeTextChar (char : Char) (rest : List Char) :
    decodeEntities (escapeTextChar char ++ rest) =
      char :: decodeEntities rest := by
  unfold escapeTextChar
  split
  · exact decodeEntities_entityText entityChar_amp (by decide) (by decide) rest
  · exact decodeEntities_entityText entityChar_lt (by decide) (by decide) rest
  · exact decodeEntities_entityText entityChar_gt (by decide) (by decide) rest
  · rename_i other _ _
    exact decodeEntities_cons (fun same => other same) rest

/-- An escaped attribute value decodes to the value, whatever follows. -/
theorem decodeEntities_escapeAttr_append (text rest : List Char) :
    decodeEntities (escapeAttr text ++ rest) = text ++ decodeEntities rest := by
  induction text with
  | nil => rfl
  | cons char text inductionHypothesis =>
      rw [escapeAttr, List.flatMap_cons, List.append_assoc,
        decodeEntities_escapeAttrChar]
      exact congrArg _ inductionHypothesis

/-- Escaped text decodes to the text, whatever follows. -/
theorem decodeEntities_escapeText_append (text rest : List Char) :
    decodeEntities (escapeText text ++ rest) = text ++ decodeEntities rest := by
  induction text with
  | nil => rfl
  | cons char text inductionHypothesis =>
      rw [escapeText, List.flatMap_cons, List.append_assoc,
        decodeEntities_escapeTextChar]
      exact congrArg _ inductionHypothesis

/-- Escaping is undone by decoding: no entity is read across two escapes, and
none is decoded twice. -/
theorem decodeEntities_escape (text : List Char) :
    decodeEntities (escapeText text) = text ∧ decodeEntities (escapeAttr text) = text := by
  have behindText := decodeEntities_escapeText_append text []
  have behindAttr := decodeEntities_escapeAttr_append text []
  rw [List.append_nil, decodeEntities_nil, List.append_nil] at behindText behindAttr
  exact ⟨behindText, behindAttr⟩

end Html
end Mailcore

import Mailcore.Content.Lines

/-!
# Parsing vCards

`vcard.rs`: the lines of a card become properties with their values, a
quoted-printable one put together from the physical lines that its soft line
breaks continue on.
-/

namespace Mailcore
namespace Vcard

open Content (ContentLine parseContentLine unfold)
open Html (byteLen trim trimEnd)
open Text (afterLast asciiLower lines parseUnsigned)

/-- Largest `.vcf` parsed for a preview card. -/
def MAX_VCARD_BYTES : Nat := 4 * 1024 * 1024

/-- The bytes of a text. -/
def utf8 (text : List Char) : List UInt8 :=
  text.flatMap String.utf8EncodeChar

/-- The property name without its group (`item1.EMAIL` → `EMAIL`). -/
def propertyName (name : List Char) : List Char :=
  afterLast '.' name

def isQuotedPrintable (cl : ContentLine) : Bool :=
  cl.params.any fun (n, v) =>
    (n = "ENCODING".toList && asciiLower v = "quoted-printable".toList) ||
      (n = "QUOTED-PRINTABLE".toList && v = [])

/-- `u8::from_str_radix` of two bytes. -/
def fromHex (high low : UInt8) : Option UInt8 :=
  (parseUnsigned 16 256 [Char.ofNat high.toNat, Char.ofNat low.toNat]).map UInt8.ofNat

/-- The `=` that starts an escape. -/
def EQUALS : UInt8 := 61

def decodeQuotedPrintable : List UInt8 → List UInt8
  | [] => []
  | [byte] => [byte]
  | [byte, last] => [byte, last]
  | byte :: high :: low :: rest =>
      if byte = EQUALS then
        match fromHex high low with
        | some value => value :: decodeQuotedPrintable rest
        | none => byte :: decodeQuotedPrintable (high :: low :: rest)
      else byte :: decodeQuotedPrintable (high :: low :: rest)

/-- UTF-8 when valid, else Latin-1 (each byte is its code point). -/
def decodeText (bytes : List UInt8) : List Char :=
  match bytes.toByteArray.utf8Decode? with
  | some text => text.toList
  | none => bytes.map fun byte => Char.ofNat byte.toNat

/-- A soft line break continues on the next physical line: the value put
together, and the lines behind it. -/
def joinSoft (joined : List Char) : List (List Char) → List Char × List (List Char)
  | [] => (joined, [])
  | next :: later =>
      if joined.getLast? = some '=' then joinSoft (joined.dropLast ++ trimEnd next) later
      else (joined, next :: later)

/-- A property that is handed to the card, with the value read for it. -/
structure Property where
  name : List Char
  line : ContentLine
  value : List Char
  deriving DecidableEq, Repr

theorem joinSoft_length (joined : List Char) (later : List (List Char)) :
    (joinSoft joined later).2.length ≤ later.length := by
  induction later generalizing joined with
  | nil => exact le_rfl
  | cons next later inductionHypothesis =>
      rw [joinSoft]
      split_ifs
      · exact (inductionHypothesis _).trans (Nat.le_succ _)
      · exact le_rfl

/-- The lines from some depth and number of cards on: the cards there are, and
the first one's own properties. -/
def readLines (depth cards : Nat) : List (List Char) → Nat × List Property
  | [] => (cards, [])
  | raw :: later =>
      let raw := trimEnd raw
      if trim raw = [] then readLines depth cards later
      else
        match parseContentLine raw with
        | none => readLines depth cards later
        | some cl =>
            let name := propertyName cl.name
            let named := asciiLower (trim cl.value) = "vcard".toList
            if name = "BEGIN".toList ∧ named then
              readLines (depth + 1) (if depth = 0 then cards + 1 else cards) later
            else if name = "END".toList ∧ named then readLines (depth - 1) cards later
            else if cards ≠ 1 ∨ depth ≠ 1 then readLines depth cards later
            else if isQuotedPrintable cl then
              let joined := joinSoft cl.value later
              let value := decodeText (decodeQuotedPrintable (utf8 joined.1))
              let read := readLines depth cards joined.2
              (read.1, ⟨name, cl, value⟩ :: read.2)
            else
              let read := readLines depth cards later
              (read.1, ⟨name, cl, cl.value⟩ :: read.2)
termination_by later => later.length
decreasing_by
  all_goals simp only [List.length_cons]
  all_goals first | omega | exact Nat.lt_succ_of_le (joinSoft_length _ _)

/-- Parse the first card of a text: its properties and how many more cards
there are. -/
def parseVcard (data : List Char) : Option (List Property × Nat) :=
  if MAX_VCARD_BYTES < byteLen data then none
  else
    let (cards, properties) := readLines 0 0 (lines (unfold data))
    if cards = 0 then none else some (properties, cards - 1)

end Vcard
end Mailcore

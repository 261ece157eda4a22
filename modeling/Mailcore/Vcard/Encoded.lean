import Mailcore.Content.Lines
import Mailcore.Vcard.Parse

/-!
# Bytes read as text

`decode_text` reads the bytes of a text back. Where bytes are no UTF-8, the text
read has more bytes beyond ASCII than they do.
-/

namespace Mailcore
namespace Vcard

/-- A byte beyond ASCII. -/
def isHigh (byte : UInt8) : Bool :=
  128 ≤ byte

/-- The character that Latin-1 reads a byte as. -/
def latin1 (byte : UInt8) : Char :=
  Char.ofNat byte.toNat

theorem utf8_append (first second : List Char) :
    utf8 (first ++ second) = utf8 first ++ utf8 second :=
  List.flatMap_append

theorem utf8_cons (char : Char) (text : List Char) :
    utf8 (char :: text) = String.utf8EncodeChar char ++ utf8 text :=
  List.flatMap_cons

/-- A fact of every byte, checked on the 256 values. -/
theorem forall_byte (holds : UInt8 → Prop)
    (all : ∀ code : Fin 256, holds (UInt8.ofNat code)) (byte : UInt8) : holds byte := by
  have here := all ⟨byte.toNat, byte.toNat_lt⟩
  rwa [UInt8.ofNat_toNat] at here

/-- Latin-1 has one byte of UTF-8 for an ASCII byte and two high ones for any
other. -/
theorem encode_latin1 (byte : UInt8) :
    (isHigh byte = false ∧ String.utf8EncodeChar (latin1 byte) = [byte]) ∨
      (isHigh byte = true ∧ (String.utf8EncodeChar (latin1 byte)).countP isHigh = 2) := by
  exact forall_byte
    (fun byte => (isHigh byte = false ∧ String.utf8EncodeChar (latin1 byte) = [byte]) ∨
      (isHigh byte = true ∧ (String.utf8EncodeChar (latin1 byte)).countP isHigh = 2))
    (by decide +kernel) byte

/-- Bytes of ASCII are the UTF-8 of their characters. -/
theorem utf8_map_latin1 {bytes : List UInt8} (ascii : bytes.countP isHigh = 0) :
    utf8 (bytes.map latin1) = bytes := by
  induction bytes with
  | nil => rfl
  | cons byte bytes inductionHypothesis =>
      rw [List.countP_cons] at ascii
      rw [List.map_cons, utf8_cons, inductionHypothesis (by omega)]
      rcases encode_latin1 byte with ⟨_, single⟩ | ⟨high, _⟩
      · rw [single, List.singleton_append]
      · rw [if_pos high] at ascii
        omega

theorem countP_utf8_map_latin1 (bytes : List UInt8) :
    (utf8 (bytes.map latin1)).countP isHigh = 2 * bytes.countP isHigh := by
  induction bytes with
  | nil => rfl
  | cons byte bytes inductionHypothesis =>
      rw [List.map_cons, utf8_cons, List.countP_append, inductionHypothesis, List.countP_cons]
      rcases encode_latin1 byte with ⟨low, single⟩ | ⟨high, double⟩
      · rw [single, List.countP_singleton, low]
        simp
      · rw [double, if_pos high]
        omega

/-- The bytes of a text are read back. -/
theorem decodeText_utf8 (text : List Char) : decodeText (utf8 text) = text := by
  have decoded : (utf8 text).toByteArray.utf8Decode? = some text.toArray :=
    List.utf8Decode?_utf8Encode
  rw [decodeText, decoded]

/-- Bytes read as some text are its own, or no UTF-8 and read as Latin-1. -/
theorem decodeText_cases (bytes : List UInt8) :
    utf8 (decodeText bytes) = bytes ∨
      (decodeText bytes = bytes.map latin1 ∧ bytes.countP isHigh ≠ 0) := by
  cases decoded : bytes.toByteArray.utf8Decode? with
  | some text =>
      left
      have valid : bytes.toByteArray.utf8Decode?.isSome := by
        rw [decoded]
        rfl
      have encoded := ByteArray.utf8Encode_get_utf8Decode? (b := bytes.toByteArray) (h := valid)
      simp only [decoded, Option.get_some] at encoded
      have read : decodeText bytes = text.toList := by
        rw [decodeText, decoded]
      rw [read]
      exact List.toByteArray_inj.mp encoded
  | none =>
      right
      have read : decodeText bytes = bytes.map latin1 := by
        rw [decodeText, decoded]
        rfl
      refine ⟨read, fun ascii => ?_⟩
      have valid : (utf8 (bytes.map latin1)).toByteArray.utf8Decode? =
          some (bytes.map latin1).toArray := List.utf8Decode?_utf8Encode
      rw [utf8_map_latin1 ascii, decoded] at valid
      cases valid

/-- Bytes with at least as many high ones as a text has, but not its own, are
not read as it. -/
theorem decodeText_ne {bytes : List UInt8} {text : List Char} (differ : bytes ≠ utf8 text)
    (high : (utf8 text).countP isHigh ≤ bytes.countP isHigh) : decodeText bytes ≠ text := by
  intro same
  rcases decodeText_cases bytes with own | ⟨latin, some_⟩
  · rw [same] at own
    exact differ own.symm
  · rw [← same, latin, countP_utf8_map_latin1] at high
    omega

end Vcard
end Mailcore

/-!
## Quoted-printable encodings

What a vCard 2.1 writer may put for the bytes of a value: printable characters
and blanks as they are, any byte as an escape, soft line breaks anywhere between
these. Unfolding takes the blank behind a soft line break for the one of a
folded line and leaves the `=` alone.
-/

namespace Mailcore
namespace Vcard

open Content (isBlank lineEnd)

/-- What may stand for itself, but for blanks. -/
def isPrintable (char : Char) : Bool :=
  33 ≤ char.toNat && char.toNat ≤ 126 && char ≠ '='

/-- A hexadecimal digit in either case. -/
def hexDigit (upper : Bool) (value : Nat) : Char :=
  if value < 10 then Char.ofNat (48 + value)
  else if upper then Char.ofNat (55 + value)
  else Char.ofNat (87 + value)

/-- What an encoding is written of: a character that stands for itself, the
escape of a byte with the case of its digits, a soft line break. -/
inductive Token where
  | literal (char : Char)
  | escaped (byte : UInt8) (upperHigh upperLow : Bool)
  | soft (crlf : Bool)
  deriving DecidableEq

/-- The escape of a byte. -/
def escape (byte : UInt8) (upperHigh upperLow : Bool) : List Char :=
  ['=', hexDigit upperHigh (byte.toNat / 16), hexDigit upperLow (byte.toNat % 16)]

/-- How a token is written. -/
def Token.written : Token → List Char
  | .literal char => [char]
  | .escaped byte upperHigh upperLow => escape byte upperHigh upperLow
  | .soft crlf => '=' :: lineEnd crlf

/-- The bytes that a token stands for. -/
def Token.bytes : Token → List UInt8
  | .literal char => [UInt8.ofNat char.toNat]
  | .escaped byte _ _ => [byte]
  | .soft _ => []

/-- An encoding: a literal is printable or a blank, and no blank ends a line. -/
structure Encoding where
  tokens : List Token
  plain : ∀ char, .literal char ∈ tokens → isPrintable char ∨ isBlank char
  solid : ∀ char, tokens.getLast? = some (.literal char) → isBlank char = false

def Encoding.written (encoding : Encoding) : List Char :=
  encoding.tokens.flatMap Token.written

def Encoding.bytes (encoding : Encoding) : List UInt8 :=
  encoding.tokens.flatMap Token.bytes

/-- A soft line break stands in front of a line that begins with a blank. -/
def BlankBehindSoft (tokens : List Token) : Prop :=
  ∃ front crlf char back,
    tokens = front ++ .soft crlf :: .literal char :: back ∧ isBlank char

/-! ## What unfolding leaves -/

/-- What stands on an unfolded line: a character, an escape, or the `=` that a
soft line break left of itself and the blank behind it. -/
inductive Piece where
  | literal (char : Char)
  | escaped (byte : UInt8) (upperHigh upperLow : Bool)
  | stray (blank : Char)
  deriving DecidableEq

/-- The pieces of an encoding, with `none` for a soft line break that stays
one. -/
def merged : List Token → List (Option Piece)
  | [] => []
  | .literal char :: later => some (.literal char) :: merged later
  | .escaped byte upperHigh upperLow :: later =>
      some (.escaped byte upperHigh upperLow) :: merged later
  | .soft _ :: .literal char :: later =>
      if isBlank char then some (.stray char) :: merged later
      else none :: some (.literal char) :: merged later
  | .soft _ :: later => none :: merged later

/-- How a piece is written. -/
def Piece.written : Piece → List Char
  | .literal char => [char]
  | .escaped byte upperHigh upperLow => escape byte upperHigh upperLow
  | .stray _ => ['=']

/-- The byte that a piece stands for. -/
def Piece.byte : Piece → UInt8
  | .literal char => UInt8.ofNat char.toNat
  | .escaped byte _ _ => byte
  | .stray blank => UInt8.ofNat blank.toNat

/-- A piece of an encoding. -/
def Piece.Ok : Piece → Prop
  | .literal char => isPrintable char ∨ isBlank char
  | .escaped _ _ _ => True
  | .stray blank => isBlank blank

def Piece.isStray : Piece → Bool
  | .stray _ => true
  | _ => false

/-- The pieces without the soft line breaks. -/
def pieces (tokens : List Token) : List Piece :=
  (merged tokens).filterMap id

/-- A line that begins with none of the two blanks. -/
def Solid (later : List Token) : Prop :=
  ∀ char rest, later = .literal char :: rest → isBlank char = false

theorem merged_stray {char : Char} (blank : isBlank char) (crlf : Bool) (later : List Token) :
    merged (.soft crlf :: .literal char :: later) = some (.stray char) :: merged later := by
  rw [merged, if_pos blank]

theorem merged_soft {later : List Token} (solid : Solid later) (crlf : Bool) :
    merged (.soft crlf :: later) = none :: merged later := by
  cases later with
  | nil => rfl
  | cons token later =>
      cases token with
      | literal char =>
          rw [merged.eq_4, solid char later rfl]
          rfl
      | escaped byte upperHigh upperLow => rfl
      | soft other => rfl

/-- Tokens are read one at a time, but for a soft line break with a blank behind
it. -/
@[elab_as_elim]
theorem tokens_induction {motive : List Token → Prop} (nil : motive [])
    (literal : ∀ char later, motive later → motive (.literal char :: later))
    (escaped : ∀ byte upperHigh upperLow later, motive later →
      motive (.escaped byte upperHigh upperLow :: later))
    (stray : ∀ crlf char later, isBlank char → motive later →
      motive (.soft crlf :: .literal char :: later))
    (soft : ∀ crlf later, Solid later → motive later → motive (.soft crlf :: later)) :
    ∀ tokens, motive tokens := by
  intro tokens
  induction tokens using merged.induct with
  | case1 => exact nil
  | case2 char later inductionHypothesis => exact literal char later inductionHypothesis
  | case3 byte upperHigh upperLow later inductionHypothesis =>
      exact escaped byte upperHigh upperLow later inductionHypothesis
  | case4 crlf char later blank inductionHypothesis =>
      exact stray crlf char later blank inductionHypothesis
  | case5 crlf char later solid inductionHypothesis =>
      refine soft crlf _ ?_ (literal char later inductionHypothesis)
      rintro _ _ ⟨⟩
      simpa using solid
  | case6 crlf later other inductionHypothesis =>
      exact soft crlf later (fun char rest same => absurd same (other char rest))
        inductionHypothesis

@[simp] theorem pieces_nil : pieces [] = [] := rfl

@[simp] theorem pieces_literal (char : Char) (later : List Token) :
    pieces (.literal char :: later) = .literal char :: pieces later := rfl

@[simp] theorem pieces_escaped (byte : UInt8) (upperHigh upperLow : Bool) (later : List Token) :
    pieces (.escaped byte upperHigh upperLow :: later) =
      .escaped byte upperHigh upperLow :: pieces later := rfl

theorem pieces_stray {char : Char} (blank : isBlank char) (crlf : Bool) (later : List Token) :
    pieces (.soft crlf :: .literal char :: later) = .stray char :: pieces later := by
  rw [pieces, merged_stray blank]
  rfl

theorem pieces_soft {later : List Token} (solid : Solid later) (crlf : Bool) :
    pieces (.soft crlf :: later) = pieces later := by
  rw [pieces, merged_soft solid]
  rfl

/-- The pieces stand for the bytes that the tokens do. -/
theorem map_byte_pieces (tokens : List Token) :
    (pieces tokens).map Piece.byte = tokens.flatMap Token.bytes := by
  induction tokens using tokens_induction with
  | nil => rfl
  | literal char later inductionHypothesis =>
      rw [pieces_literal, List.map_cons, inductionHypothesis]
      rfl
  | escaped byte upperHigh upperLow later inductionHypothesis =>
      rw [pieces_escaped, List.map_cons, inductionHypothesis]
      rfl
  | stray crlf char later blank inductionHypothesis =>
      rw [pieces_stray blank, List.map_cons, inductionHypothesis]
      rfl
  | soft crlf later solid inductionHypothesis =>
      rw [pieces_soft solid, inductionHypothesis]
      rfl

theorem blankBehindSoft_cons {token : Token} {later : List Token}
    (later_ : BlankBehindSoft later) : BlankBehindSoft (token :: later) := by
  obtain ⟨front, crlf, char, back, rfl, blank⟩ := later_
  exact ⟨token :: front, crlf, char, back, rfl, blank⟩

theorem blankBehindSoft_of_cons {token : Token} {later : List Token}
    (here : BlankBehindSoft (token :: later))
    (apart : ∀ crlf, token = .soft crlf → Solid later) : BlankBehindSoft later := by
  obtain ⟨front, crlf, char, back, same, blank⟩ := here
  cases front with
  | nil =>
      obtain ⟨isSoft, rest⟩ := List.cons.inj same
      rw [apart crlf isSoft char back rest] at blank
      cases blank
  | cons first front => exact ⟨front, crlf, char, back, (List.cons.inj same).2, blank⟩

/-- A blank is taken off where one stands behind a soft line break. -/
theorem exists_stray_iff (tokens : List Token) :
    (∃ piece ∈ pieces tokens, piece.isStray) ↔ BlankBehindSoft tokens := by
  induction tokens using tokens_induction with
  | nil => simp [BlankBehindSoft]
  | literal char later inductionHypothesis =>
      rw [pieces_literal, List.exists_mem_cons_iff, inductionHypothesis]
      constructor
      · rintro (impossible | behind)
        · cases impossible
        · exact blankBehindSoft_cons behind
      · intro here
        exact .inr (blankBehindSoft_of_cons here (by rintro _ ⟨⟩))
  | escaped byte upperHigh upperLow later inductionHypothesis =>
      rw [pieces_escaped, List.exists_mem_cons_iff, inductionHypothesis]
      constructor
      · rintro (impossible | behind)
        · cases impossible
        · exact blankBehindSoft_cons behind
      · intro here
        exact .inr (blankBehindSoft_of_cons here (by rintro _ ⟨⟩))
  | stray crlf char later blank _ =>
      rw [pieces_stray blank]
      exact iff_of_true ⟨_, List.mem_cons_self, rfl⟩ ⟨[], crlf, char, later, rfl, blank⟩
  | soft crlf later solid inductionHypothesis =>
      rw [pieces_soft solid, inductionHypothesis]
      exact ⟨blankBehindSoft_cons, fun here => blankBehindSoft_of_cons here fun _ _ => solid⟩

theorem ok_of_mem_pieces {tokens : List Token}
    (plain : ∀ char, .literal char ∈ tokens → isPrintable char ∨ isBlank char) :
    ∀ piece ∈ pieces tokens, piece.Ok := by
  induction tokens using tokens_induction with
  | nil => simp
  | literal char later inductionHypothesis =>
      rw [pieces_literal, List.forall_mem_cons]
      exact ⟨plain char List.mem_cons_self,
        inductionHypothesis fun other member => plain other (List.mem_cons_of_mem _ member)⟩
  | escaped byte upperHigh upperLow later inductionHypothesis =>
      rw [pieces_escaped, List.forall_mem_cons]
      exact ⟨trivial,
        inductionHypothesis fun other member => plain other (List.mem_cons_of_mem _ member)⟩
  | stray crlf char later blank inductionHypothesis =>
      rw [pieces_stray blank, List.forall_mem_cons]
      exact ⟨blank, inductionHypothesis fun other member =>
        plain other (List.mem_cons_of_mem _ (List.mem_cons_of_mem _ member))⟩
  | soft crlf later solid inductionHypothesis =>
      rw [pieces_soft solid]
      exact inductionHypothesis fun other member => plain other (List.mem_cons_of_mem _ member)

end Vcard
end Mailcore

import Mailcore.Vcard.Encoded

/-!
# Decoding the pieces of a value

Without a stray `=` the pieces decode to the bytes they stand for. A stray one
is decoded as itself or swallows two characters behind it, so that the bytes are
others or fewer.
-/

namespace Mailcore
namespace Vcard

open Content (isBlank)

/-- The byte of a character of ASCII. -/
def asciiByte (char : Char) : UInt8 :=
  UInt8.ofNat char.toNat

/-- The bytes that a piece is written with. -/
def Piece.spelled : Piece → List UInt8
  | .literal char => [asciiByte char]
  | .escaped byte upperHigh upperLow => (escape byte upperHigh upperLow).map asciiByte
  | .stray _ => [EQUALS]

/-- The byte that is left of a piece where nothing is swallowed. -/
def Piece.kept : Piece → UInt8
  | .stray _ => EQUALS
  | piece => piece.byte

theorem utf8_ascii {char : Char} (ascii : char.toNat < 128) : utf8 [char] = [asciiByte char] := by
  have code : (asciiByte char).toNat = char.toNat := by
    rw [asciiByte, UInt8.toNat_ofNat']
    omega
  have same : latin1 (asciiByte char) = char := by
    rw [latin1, code, Char.ofNat_toNat]
  rcases encode_latin1 (asciiByte char) with ⟨_, single⟩ | ⟨high, _⟩
  · rw [same] at single
    rw [utf8_cons, single]
    rfl
  · simp only [isHigh, decide_eq_true_eq, UInt8.le_iff_toNat_le, code] at high
    have bound : (128 : UInt8).toNat = 128 := rfl
    omega

theorem toNat_of_literal {char : Char} (plain : isPrintable char ∨ isBlank char) :
    char.toNat < 128 ∧ char ≠ '=' := by
  rcases plain with printable | blank
  · simp only [isPrintable, Bool.and_eq_true, decide_eq_true_eq] at printable
    exact ⟨by omega, printable.2⟩
  · simp only [isBlank, Bool.or_eq_true, decide_eq_true_eq] at blank
    rcases blank with rfl | rfl <;> decide

/-- The digits of an escape are read back. -/
theorem escape_read (byte : UInt8) (upperHigh upperLow : Bool) :
    ∃ high low, (escape byte upperHigh upperLow).map asciiByte = [EQUALS, high, low] ∧
      utf8 (escape byte upperHigh upperLow) = [EQUALS, high, low] ∧
      fromHex high low = some byte := by
  have all : ∀ byte : UInt8, ∀ upperHigh upperLow : Bool,
      utf8 (escape byte upperHigh upperLow) = (escape byte upperHigh upperLow).map asciiByte ∧
      fromHex (asciiByte (hexDigit upperHigh (byte.toNat / 16)))
        (asciiByte (hexDigit upperLow (byte.toNat % 16))) = some byte :=
    forall_byte _ (by decide +kernel)
  obtain ⟨spelled, read⟩ := all byte upperHigh upperLow
  exact ⟨_, _, rfl, spelled, read⟩

theorem utf8_written {piece : Piece} (ok : piece.Ok) : utf8 piece.written = piece.spelled := by
  cases piece with
  | literal char => exact utf8_ascii (toNat_of_literal ok).1
  | escaped byte upperHigh upperLow =>
      obtain ⟨high, low, mapped, spelled, _⟩ := escape_read byte upperHigh upperLow
      rw [Piece.written, Piece.spelled, spelled, mapped]
  | stray blank =>
      have spelled : utf8 ['='] = [EQUALS] := by decide
      exact spelled

theorem utf8_flatMap_written {all : List Piece} (ok : ∀ piece ∈ all, piece.Ok) :
    utf8 (all.flatMap Piece.written) = all.flatMap Piece.spelled := by
  induction all with
  | nil => rfl
  | cons piece all inductionHypothesis =>
      rw [List.forall_mem_cons] at ok
      rw [List.flatMap_cons, utf8_append, utf8_written ok.1, inductionHypothesis ok.2,
        List.flatMap_cons]

theorem asciiByte_ne {char : Char} (plain : isPrintable char ∨ isBlank char) :
    asciiByte char ≠ EQUALS := by
  obtain ⟨ascii, notEquals⟩ := toNat_of_literal plain
  intro same
  have code : (asciiByte char).toNat = char.toNat := by
    rw [asciiByte, UInt8.toNat_ofNat']
    omega
  have sixtyOne : char.toNat = '='.toNat := by
    rw [← code, same]
    rfl
  exact notEquals (Char.toNat_inj.mp sixtyOne)

/-! ## One step of the decoder -/

theorem decode_ne {byte : UInt8} (notEquals : byte ≠ EQUALS) (rest : List UInt8) :
    decodeQuotedPrintable (byte :: rest) = byte :: decodeQuotedPrintable rest := by
  match rest with
  | [] => rfl
  | [_] => rfl
  | high :: low :: rest => rw [decodeQuotedPrintable, if_neg notEquals]

theorem decode_escape {high low value : UInt8} (read : fromHex high low = some value)
    (rest : List UInt8) :
    decodeQuotedPrintable (EQUALS :: high :: low :: rest) =
      value :: decodeQuotedPrintable rest := by
  rw [decodeQuotedPrintable, if_pos rfl, read]

theorem decode_stray {rest : List UInt8}
    (apart : ∀ high low later, rest = high :: low :: later → fromHex high low = none) :
    decodeQuotedPrintable (EQUALS :: rest) = EQUALS :: decodeQuotedPrintable rest := by
  match rest with
  | [] => rfl
  | [_] => rfl
  | high :: low :: later =>
      rw [decodeQuotedPrintable, if_pos rfl, apart high low later rfl]

/-- An `=` is no digit. -/
theorem ne_of_fromHex {high low value : UInt8} (read : fromHex high low = some value) :
    high ≠ EQUALS ∧ low ≠ EQUALS := by
  have first : ∀ low : UInt8, fromHex EQUALS low = none := forall_byte _ (by decide +kernel)
  have second : ∀ high : UInt8, fromHex high EQUALS = none := forall_byte _ (by decide +kernel)
  constructor
  · rintro rfl
    rw [first low] at read
    cases read
  · rintro rfl
    rw [second high] at read
    cases read

/-! ## The decoded pieces -/

/-- Without a stray `=` the pieces decode to their bytes. -/
theorem decode_pieces {all : List Piece} (ok : ∀ piece ∈ all, piece.Ok)
    (none_ : ∀ piece ∈ all, piece.isStray = false) :
    decodeQuotedPrintable (all.flatMap Piece.spelled) = all.map Piece.byte := by
  induction all with
  | nil => rfl
  | cons piece all inductionHypothesis =>
      rw [List.forall_mem_cons] at ok none_
      have later := inductionHypothesis ok.2 none_.2
      cases piece with
      | literal char =>
          rw [List.flatMap_cons, Piece.spelled, List.singleton_append,
            decode_ne (asciiByte_ne ok.1), later]
          rfl
      | escaped byte upperHigh upperLow =>
          obtain ⟨high, low, mapped, _, read⟩ := escape_read byte upperHigh upperLow
          rw [List.flatMap_cons, Piece.spelled, mapped]
          change decodeQuotedPrintable (EQUALS :: high :: low :: all.flatMap Piece.spelled) = _
          rw [decode_escape read, later]
          rfl
      | stray blank => cases none_.1

/-- A character in front of the pieces is a literal, where it is no `=`. -/
theorem literal_of_spelled {all : List Piece} {byte : UInt8} {rest : List UInt8}
    (begins : all.flatMap Piece.spelled = byte :: rest) (notEquals : byte ≠ EQUALS) :
    ∃ char later, all = .literal char :: later ∧ asciiByte char = byte ∧
      later.flatMap Piece.spelled = rest := by
  cases all with
  | nil => cases begins
  | cons piece later =>
      rw [List.flatMap_cons] at begins
      cases piece with
      | literal char =>
          obtain ⟨here, behind⟩ := List.cons.inj begins
          exact ⟨char, later, rfl, here, behind⟩
      | escaped byte upperHigh upperLow =>
          exact absurd (List.cons.inj begins).1.symm notEquals
      | stray blank => exact absurd (List.cons.inj begins).1.symm notEquals

theorem isHigh_asciiByte {char : Char} (plain : isPrintable char ∨ isBlank char) :
    isHigh (asciiByte char) = false := by
  have code : (asciiByte char).toNat = char.toNat := by
    have ascii := (toNat_of_literal plain).1
    rw [asciiByte, UInt8.toNat_ofNat']
    omega
  have bound : (128 : UInt8).toNat = 128 := rfl
  have ascii := (toNat_of_literal plain).1
  simp only [isHigh, decide_eq_false_iff_not, UInt8.le_iff_toNat_le, code]
  omega

/-- Bytes are what is kept of the pieces, or fewer, and no high byte is lost. -/
def KeptOrFewer (bytes : List UInt8) (all : List Piece) : Prop :=
  (bytes = all.map Piece.kept ∨ bytes.length < all.length) ∧
    (all.map Piece.kept).countP isHigh ≤ bytes.countP isHigh

theorem KeptOrFewer.cons {bytes : List UInt8} {all : List Piece} (kept : KeptOrFewer bytes all)
    (piece : Piece) : KeptOrFewer (piece.kept :: bytes) (piece :: all) := by
  obtain ⟨same | fewer, high⟩ := kept
  · subst same
    exact ⟨.inl rfl, le_rfl⟩
  · refine ⟨.inr (Nat.succ_lt_succ fewer), ?_⟩
    rw [List.map_cons, List.countP_cons, List.countP_cons]
    omega

theorem KeptOrFewer.length_le {bytes : List UInt8} {all : List Piece}
    (kept : KeptOrFewer bytes all) : bytes.length ≤ all.length := by
  obtain ⟨rfl | fewer, -⟩ := kept
  · rw [List.length_map]
  · exact fewer.le

/-- A swallowed pair of literals. -/
theorem KeptOrFewer.swallow {bytes : List UInt8} {all : List Piece}
    (kept : KeptOrFewer bytes all) {first second : Char}
    (plain : isPrintable first ∨ isBlank first) (plain' : isPrintable second ∨ isBlank second)
    (value : UInt8) (blank : Char) :
    KeptOrFewer (value :: bytes)
      (.stray blank :: .literal first :: .literal second :: all) := by
  refine ⟨.inr ?_, ?_⟩
  · have most := kept.length_le
    simp only [List.length_cons]
    omega
  · have low : isHigh EQUALS = false := by decide
    have high := kept.2
    have firstLow : isHigh (Piece.kept (.literal first)) = false := isHigh_asciiByte plain
    have secondLow : isHigh (Piece.kept (.literal second)) = false := isHigh_asciiByte plain'
    have strayLow : isHigh (Piece.kept (.stray blank)) = false := low
    rw [List.map_cons, List.map_cons, List.map_cons, List.countP_cons, List.countP_cons,
      List.countP_cons, firstLow, secondLow, strayLow, List.countP_cons]
    simp only [Bool.false_eq_true, if_false]
    omega

/-- The decoded pieces are what is kept of them, or fewer. -/
theorem decode_kept (count : Nat) {all : List Piece} (short : all.length ≤ count)
    (ok : ∀ piece ∈ all, piece.Ok) :
    KeptOrFewer (decodeQuotedPrintable (all.flatMap Piece.spelled)) all := by
  -- A swallowed pair takes two pieces more off, so the induction is on the length.
  induction count generalizing all with
  | zero =>
      rw [List.length_eq_zero_iff.mp (Nat.le_zero.mp short)]
      exact ⟨.inl rfl, le_rfl⟩
  | succ count inductionHypothesis =>
      cases all with
      | nil => exact ⟨.inl rfl, le_rfl⟩
      | cons piece later =>
          rw [List.length_cons] at short
          rw [List.forall_mem_cons] at ok
          have behind := inductionHypothesis (Nat.le_of_succ_le_succ short) ok.2
          cases piece with
          | literal char =>
              rw [List.flatMap_cons, Piece.spelled, List.singleton_append,
                decode_ne (asciiByte_ne ok.1)]
              exact behind.cons (.literal char)
          | escaped byte upperHigh upperLow =>
              obtain ⟨high, low, mapped, _, read⟩ := escape_read byte upperHigh upperLow
              rw [List.flatMap_cons, Piece.spelled, mapped]
              change KeptOrFewer (decodeQuotedPrintable
                (EQUALS :: high :: low :: later.flatMap Piece.spelled)) _
              rw [decode_escape read]
              exact behind.cons (.escaped byte upperHigh upperLow)
          | stray blank =>
              rw [List.flatMap_cons, Piece.spelled, List.singleton_append]
              by_cases swallows : ∃ high low rest value,
                  later.flatMap Piece.spelled = high :: low :: rest ∧
                    fromHex high low = some value
              · obtain ⟨high, low, rest, value, begins, read⟩ := swallows
                obtain ⟨notFirst, notSecond⟩ := ne_of_fromHex read
                rw [begins, decode_escape read]
                obtain ⟨first, others, rfl, -, begins⟩ := literal_of_spelled begins notFirst
                obtain ⟨second, others, rfl, -, rfl⟩ := literal_of_spelled begins notSecond
                rw [List.forall_mem_cons, List.forall_mem_cons] at ok
                simp only [List.length_cons] at short
                exact (inductionHypothesis (by omega) ok.2.2.2).swallow ok.2.1 ok.2.2.1 value blank
              · rw [decode_stray]
                · exact behind.cons (.stray blank)
                · intro high low rest begins
                  by_contra read
                  obtain ⟨value, read⟩ := Option.ne_none_iff_exists'.mp read
                  exact swallows ⟨high, low, rest, value, begins, read⟩

/-- A stray `=` is no blank, so the bytes are others. -/
theorem map_kept_ne {all : List Piece} (ok : ∀ piece ∈ all, piece.Ok)
    (stray : ∃ piece ∈ all, piece.isStray) : all.map Piece.kept ≠ all.map Piece.byte := by
  intro same
  rw [List.map_inj_left] at same
  obtain ⟨piece, member, isStray⟩ := stray
  have here := same piece member
  cases piece with
  | literal char => cases isStray
  | escaped byte upperHigh upperLow => cases isStray
  | stray blank => exact asciiByte_ne (.inr (ok _ member)) here.symm

theorem isHigh_kept {piece : Piece} (ok : piece.Ok) :
    isHigh piece.kept = isHigh piece.byte := by
  cases piece with
  | literal char => rfl
  | escaped byte upperHigh upperLow => rfl
  | stray blank =>
      have low : isHigh EQUALS = false := by decide
      exact low.trans (isHigh_asciiByte (.inr ok)).symm

theorem countP_kept {all : List Piece} (ok : ∀ piece ∈ all, piece.Ok) :
    (all.map Piece.kept).countP isHigh = (all.map Piece.byte).countP isHigh := by
  rw [List.countP_map, List.countP_map]
  exact List.countP_congr fun piece member => by
    rw [Function.comp_apply, Function.comp_apply, isHigh_kept (ok piece member)]

/-- With a stray `=` the value read is not the text. -/
theorem decoded_ne {all : List Piece} {text : List Char} (ok : ∀ piece ∈ all, piece.Ok)
    (stray : ∃ piece ∈ all, piece.isStray) (bytes : all.map Piece.byte = utf8 text) :
    decodeText (decodeQuotedPrintable (all.flatMap Piece.spelled)) ≠ text := by
  obtain ⟨same | fewer, high⟩ := decode_kept all.length le_rfl ok
  · refine decodeText_ne ?_ ?_
    · rw [same, ← bytes]
      exact map_kept_ne ok stray
    · rw [← bytes, ← countP_kept ok]
      exact high
  · refine decodeText_ne ?_ ?_
    · intro whole
      rw [whole, ← bytes, List.length_map] at fewer
      exact lt_irrefl _ fewer
    · rw [← bytes, ← countP_kept ok]
      exact high

end Vcard
end Mailcore

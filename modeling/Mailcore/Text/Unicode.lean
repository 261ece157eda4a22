import Mathlib.Data.List.Basic
import Mathlib.Tactic.SplitIfs

/-!
# UTF-16

Characters written as 16-bit units: one unit for most, a surrogate pair for
those beyond the basic plane.
-/

namespace Mailcore
namespace Text

/-- `char::encode_utf16`. -/
def encodeUtf16 (char : Char) : List UInt16 :=
  if char.toNat < 0x10000 then
    [UInt16.ofNat char.toNat]
  else
    [UInt16.ofNat (0xD800 + (char.toNat - 0x10000) / 0x400),
      UInt16.ofNat (0xDC00 + (char.toNat - 0x10000) % 0x400)]

/-- `char::decode_utf16` collected into a string: an unpaired surrogate makes
it fail. -/
def decodeUtf16 : List UInt16 → Option (List Char)
  | [] => some []
  | unit :: rest =>
      if unit.toNat < 0xD800 ∨ 0xE000 ≤ unit.toNat then
        (decodeUtf16 rest).map (Char.ofNat unit.toNat :: ·)
      else if 0xDC00 ≤ unit.toNat then
        none
      else
        match rest with
        | [] => none
        | low :: rest =>
            if 0xDC00 ≤ low.toNat ∧ low.toNat < 0xE000 then
              (decodeUtf16 rest).map
                (Char.ofNat (0x10000 + (unit.toNat - 0xD800) * 0x400 +
                  (low.toNat - 0xDC00)) :: ·)
            else
              none

/-- A scalar value is never a surrogate and never beyond the last plane. -/
theorem scalar_bounds (char : Char) :
    char.toNat < 0xD800 ∨ 0xE000 ≤ char.toNat ∧ char.toNat < 0x110000 := by
  have valid := char.valid
  change char.toNat < 0xD800 ∨ 0xDFFF < char.toNat ∧ char.toNat < 0x110000
    at valid
  omega

theorem toNat_ofNat {value : Nat} (bound : value < 0x10000) :
    (UInt16.ofNat value).toNat = value := by
  rw [UInt16.toNat_ofNat']
  exact Nat.mod_eq_of_lt bound

theorem decodeUtf16_encodeUtf16_append (char : Char) (rest : List UInt16) :
    decodeUtf16 (encodeUtf16 char ++ rest) =
      (decodeUtf16 rest).map (char :: ·) := by
  have bounds := scalar_bounds char
  by_cases basic : char.toNat < 0x10000
  · rw [encodeUtf16, if_pos basic, List.singleton_append,
      decodeUtf16.eq_def]
    simp only [toNat_ofNat basic]
    rw [if_pos (by omega), Char.ofNat_toNat]
  · have high :
        (UInt16.ofNat (0xD800 + (char.toNat - 0x10000) / 0x400)).toNat =
          0xD800 + (char.toNat - 0x10000) / 0x400 :=
      toNat_ofNat (by omega)
    have low :
        (UInt16.ofNat (0xDC00 + (char.toNat - 0x10000) % 0x400)).toNat =
          0xDC00 + (char.toNat - 0x10000) % 0x400 :=
      toNat_ofNat (by omega)
    have whole :
        0x10000 + (0xD800 + (char.toNat - 0x10000) / 0x400 - 0xD800) * 0x400 +
          (0xDC00 + (char.toNat - 0x10000) % 0x400 - 0xDC00) = char.toNat := by
      omega
    rw [encodeUtf16, if_neg basic, List.cons_append, List.singleton_append,
      decodeUtf16, high, if_neg (by omega), if_neg (by omega), low,
      if_pos (by omega), whole, Char.ofNat_toNat]

/-- What was written is read back. -/
@[simp] theorem decodeUtf16_flatMap (chars : List Char) :
    decodeUtf16 (chars.flatMap encodeUtf16) = some chars := by
  induction chars with
  | nil => rfl
  | cons head tail inductionHypothesis =>
      rw [List.flatMap_cons, decodeUtf16_encodeUtf16_append,
        inductionHypothesis]
      rfl

theorem encodeUtf16_ne_nil (char : Char) : encodeUtf16 char ≠ [] := by
  unfold encodeUtf16
  split <;> exact List.cons_ne_nil _ _

end Text
end Mailcore

/-!
## Lossy UTF-8

Bytes read as text: well-formed sequences become their characters, every
maximal ill-formed one becomes U+FFFD.
-/

namespace Mailcore
namespace Text

/-- `byte & 192 == 128`. -/
def isTail (byte : UInt8) : Bool :=
  decide (0x80 ≤ byte.toNat) && decide (byte.toNat < 0xC0)

/-- The second bytes a three- or four-byte sequence may have. -/
def isSecond (first second : UInt8) : Bool :=
  if first.toNat = 0xE0 then decide (0xA0 ≤ second.toNat) && isTail second
  else if first.toNat = 0xED then isTail second && decide (second.toNat < 0xA0)
  else if first.toNat = 0xF0 then decide (0x90 ≤ second.toNat) && isTail second
  else if first.toNat = 0xF4 then isTail second && decide (second.toNat < 0x90)
  else isTail second

/-- What a first byte and the bytes after it begin with: the character, if
they are well formed, and how many of the bytes after it belong to it.  Beyond
the end stands a zero. -/
def lossyHead (first : UInt8) (rest : List UInt8) : Option Char × Nat :=
  let second := rest.getD 0 0
  let third := rest.getD 1 0
  let fourth := rest.getD 2 0
  if first.toNat < 0x80 then
    (some (Char.ofNat first.toNat), 0)
  else if 0xC2 ≤ first.toNat ∧ first.toNat ≤ 0xDF then
    if isTail second then
      (some (Char.ofNat ((first.toNat - 0xC0) * 0x40 +
        (second.toNat - 0x80))), 1)
    else
      (none, 0)
  else if 0xE0 ≤ first.toNat ∧ first.toNat ≤ 0xEF then
    if !isSecond first second then (none, 0)
    else if !isTail third then (none, 1)
    else
      (some (Char.ofNat ((first.toNat - 0xE0) * 0x1000 +
        (second.toNat - 0x80) * 0x40 + (third.toNat - 0x80))), 2)
  else if 0xF0 ≤ first.toNat ∧ first.toNat ≤ 0xF4 then
    if !isSecond first second then (none, 0)
    else if !isTail third then (none, 1)
    else if !isTail fourth then (none, 2)
    else
      (some (Char.ofNat ((first.toNat - 0xF0) * 0x40000 +
        (second.toNat - 0x80) * 0x1000 + (third.toNat - 0x80) * 0x40 +
          (fourth.toNat - 0x80))), 3)
  else
    (none, 0)

/-- `String::from_utf8_lossy`. -/
def fromUtf8Lossy : List UInt8 → List Char
  | [] => []
  | first :: rest =>
      (lossyHead first rest).1.getD '\uFFFD' ::
        fromUtf8Lossy (rest.drop (lossyHead first rest).2)
termination_by bytes => bytes.length
decreasing_by
  simp only [List.length_drop, List.length_cons]
  omega

/-- ASCII is read as it is. -/
theorem fromUtf8Lossy_ascii
    {bytes : List UInt8}
    (ascii : ∀ byte ∈ bytes, byte.toNat < 0x80) :
    fromUtf8Lossy bytes = bytes.map fun byte => Char.ofNat byte.toNat := by
  induction bytes with
  | nil => rw [fromUtf8Lossy, List.map_nil]
  | cons head tail inductionHypothesis =>
      have single : lossyHead head tail =
          (some (Char.ofNat head.toNat), 0) := by
        unfold lossyHead
        rw [if_pos (ascii head List.mem_cons_self)]
      rw [fromUtf8Lossy, single, List.drop_zero, List.map_cons,
        inductionHypothesis fun byte member =>
          ascii byte (List.mem_cons_of_mem _ member)]
      rfl

theorem toNat_ofNat_small {value : Nat} (small : value < 256) : (UInt8.ofNat value).toNat = value := by
  rw [UInt8.toNat_ofNat']
  omega

theorem char_valid (char : Char) :
    char.val.toNat < 0xD800 ∨ (0xDFFF < char.val.toNat ∧ char.val.toNat < 0x110000) :=
  char.valid

theorem toNat_tail (value : Nat) : (UInt8.ofNat (value % 0x40 + 0x80)).toNat = value % 0x40 + 0x80 :=
  toNat_ofNat_small (by omega)

theorem isTail_tail (value : Nat) : isTail (UInt8.ofNat (value % 0x40 + 0x80)) = true := by
  rw [isTail, toNat_tail]
  simp only [Bool.and_eq_true, decide_eq_true_eq]
  omega

/-- The bytes of a character are read as it. -/
theorem lossyHead_utf8 (char : Char) (rest : List UInt8) :
    ∃ first tail, String.utf8EncodeChar char = first :: tail ∧
      lossyHead first (tail ++ rest) = (some char, tail.length) := by
  have valid := char_valid char
  have back : Char.ofNat char.val.toNat = char := Char.ofNat_toNat char
  unfold String.utf8EncodeChar
  generalize char.val.toNat = v at valid back
  dsimp only
  split_ifs with one two three
  · refine ⟨_, [], rfl, ?_⟩
    have read : (UInt8.ofNat v).toNat = v := toNat_ofNat_small (by omega)
    rw [lossyHead, read, if_pos (by omega), back]
    rfl
  · refine ⟨_, [_], rfl, ?_⟩
    have high : (UInt8.ofNat (v / 64 % 0x20 + 0xc0)).toNat = v / 64 % 0x20 + 0xc0 :=
      toNat_ofNat_small (by omega)
    have value : (v / 64 % 0x20 + 0xc0 - 0xC0) * 0x40 + (v % 0x40 + 0x80 - 0x80) = v := by omega
    simp only [lossyHead, high, List.singleton_append, List.getD_cons_zero, toNat_tail, isTail_tail, value,
      back]
    rw [if_neg (by omega), if_pos (by omega)]
    rfl
  · refine ⟨_, [_, _], rfl, ?_⟩
    have high : (UInt8.ofNat (v / 4096 % 0x10 + 0xe0)).toNat = v / 4096 % 0x10 + 0xe0 :=
      toNat_ofNat_small (by omega)
    have second : isSecond (UInt8.ofNat (v / 4096 % 0x10 + 0xe0))
        (UInt8.ofNat (v / 64 % 0x40 + 0x80)) = true := by
      simp only [isSecond, isTail, high, toNat_tail]
      split_ifs <;> simp only [Bool.and_eq_true, decide_eq_true_eq] <;> omega
    have value : (v / 4096 % 0x10 + 0xe0 - 0xE0) * 0x1000 +
        (v / 64 % 0x40 + 0x80 - 0x80) * 0x40 + (v % 0x40 + 0x80 - 0x80) = v := by omega
    simp only [lossyHead, high, List.cons_append, List.nil_append, List.getD_cons_zero,
      List.getD_cons_succ, toNat_tail, isTail_tail, second, value, back]
    rw [if_neg (by omega), if_neg (by omega), if_pos (by omega)]
    rfl
  · refine ⟨_, [_, _, _], rfl, ?_⟩
    have high : (UInt8.ofNat (v / 262144 % 0x08 + 0xf0)).toNat = v / 262144 % 0x08 + 0xf0 :=
      toNat_ofNat_small (by omega)
    have second : isSecond (UInt8.ofNat (v / 262144 % 0x08 + 0xf0))
        (UInt8.ofNat (v / 4096 % 0x40 + 0x80)) = true := by
      simp only [isSecond, isTail, high, toNat_tail]
      split_ifs <;> simp only [Bool.and_eq_true, decide_eq_true_eq] <;> omega
    have value : (v / 262144 % 0x08 + 0xf0 - 0xF0) * 0x40000 +
        (v / 4096 % 0x40 + 0x80 - 0x80) * 0x1000 + (v / 64 % 0x40 + 0x80 - 0x80) * 0x40 +
          (v % 0x40 + 0x80 - 0x80) = v := by omega
    simp only [lossyHead, high, List.cons_append, List.nil_append, List.getD_cons_zero,
      List.getD_cons_succ, toNat_tail, isTail_tail, second, value, back]
    rw [if_neg (by omega), if_neg (by omega), if_neg (by omega), if_pos (by omega)]
    rfl

/-- UTF-8 is read back. -/
theorem fromUtf8Lossy_utf8 (text : List Char) :
    fromUtf8Lossy (text.flatMap String.utf8EncodeChar) = text := by
  induction text with
  | nil => rw [List.flatMap_nil, fromUtf8Lossy]
  | cons char text inductionHypothesis =>
      obtain ⟨first, tail, shape, read⟩ :=
        lossyHead_utf8 char (text.flatMap String.utf8EncodeChar)
      rw [List.flatMap_cons, shape, List.cons_append, fromUtf8Lossy, read, List.drop_left,
        inductionHypothesis]
      rfl

end Text
end Mailcore

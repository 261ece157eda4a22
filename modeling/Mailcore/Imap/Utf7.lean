import Mathlib.Data.List.DropRight
import Mailcore.Data.Bits
import Mailcore.Data.Chunks
import Mailcore.Text.Unicode

/-!
# Modified UTF-7

Mailbox names on the wire are printable ASCII: every other run of characters
travels as `&…-`, its UTF-16 units in a base64 with `,` for `/` and without
padding, and `&-` is a literal `&`.
-/

namespace Mailcore
namespace Imap
namespace Utf7

open Data (bits chunks)
open Text (encodeUtf16 decodeUtf16)

/-- The sixty-four letters of base64. -/
def b64Alphabet : List Char :=
  ['A', 'B', 'C', 'D', 'E', 'F', 'G', 'H', 'I', 'J', 'K', 'L', 'M',
    'N', 'O', 'P', 'Q', 'R', 'S', 'T', 'U', 'V', 'W', 'X', 'Y', 'Z',
    'a', 'b', 'c', 'd', 'e', 'f', 'g', 'h', 'i', 'j', 'k', 'l', 'm',
    'n', 'o', 'p', 'q', 'r', 's', 't', 'u', 'v', 'w', 'x', 'y', 'z',
    '0', '1', '2', '3', '4', '5', '6', '7', '8', '9', '+', '/']

/-- The letter of six bits. -/
def letter (value : Nat) : Char :=
  b64Alphabet.getD value 'A'

/-- The value of a letter. -/
def b64Value (char : Char) : Option Nat :=
  if 'A' ≤ char ∧ char ≤ 'Z' then some (char.toNat - 'A'.toNat)
  else if 'a' ≤ char ∧ char ≤ 'z' then some (char.toNat - 'a'.toNat + 26)
  else if '0' ≤ char ∧ char ≤ '9' then some (char.toNat - '0'.toNat + 52)
  else if char = '+' then some 62
  else if char = '/' then some 63
  else none

/-- `n |= digit << (top - step * k)` over the digits of a group. -/
def gather (top step : Nat) (digits : List Nat) : Nat :=
  digits.zipIdx.foldl (fun n digit => n ||| digit.1 <<< (top - step * digit.2)) 0

/-- The six-bit values one to three bytes become. -/
def sextets (chunk : List UInt8) : List Nat :=
  let n := gather 16 8 (chunk.map UInt8.toNat)
  let pad := 3 - chunk.length
  (List.range (4 - pad)).map fun k => (n >>> (18 - 6 * k)) &&& 63

def base64Encode (bytes : List UInt8) : List Char :=
  (chunks 3 bytes).flatMap fun chunk =>
    (sextets chunk).map letter ++ List.replicate (3 - chunk.length) '='

/-- The values before the padding; any other character is an error. -/
def b64Values : List Char → Option (List Nat)
  | [] => some []
  | char :: rest =>
      if char = '=' then
        some []
      else
        (b64Value char).bind fun value =>
          (b64Values rest).map (value :: ·)

/-- The bytes of two to four values; one alone is an error. -/
def octets (chunk : List Nat) : Option (List UInt8) :=
  let n := gather 18 6 chunk
  let count :=
    match chunk.length with
    | 4 => some 3
    | 3 => some 2
    | 2 => some 1
    | _ => none
  count.map fun count =>
    (List.range count).map fun k => UInt8.ofNat ((n >>> (16 - 8 * k)) &&& 0xff)

def base64Decode (input : List Char) : Option (List UInt8) :=
  (b64Values input).bind fun values =>
    ((chunks 4 values).mapM octets).map List.flatten

/-- The two bytes of a unit, high byte first. -/
def unitBytes (unit : UInt16) : List UInt8 :=
  [(unit >>> 8).toUInt8, (unit &&& 0xff).toUInt8]

/-- `as_chunks::<2>` read as units; a byte left over is dropped. -/
def bytesUnits : List UInt8 → List UInt16
  | high :: low :: rest =>
      (high.toUInt16 <<< 8 ||| low.toUInt16) :: bytesUnits rest
  | _ => []

/-- What stands between `&` and `-`, if it can be decoded. -/
def decodeShift (inner : List Char) : Option (List Char) :=
  if inner.all fun char =>
      char.isAlphanum || char == '+' || char == ',' || char == '/' then
    let standard := inner.map fun char => if char = ',' then '/' else char
    let padded :=
      standard ++ List.replicate ((4 - standard.length % 4) % 4) '='
    (base64Decode padded).bind fun bytes =>
      if bytes.length % 2 ≠ 0 then none else decodeUtf16 (bytesUnits bytes)
  else
    none

/-- The loop of `decode_modified_utf7`: an unterminated `&` and a segment
that cannot be decoded pass through as they are. -/
def decodeFrom : List Char → List Char
  | [] => []
  | char :: rest =>
      if char ≠ '&' then
        char :: decodeFrom rest
      else if '-' ∈ rest then
        let inner := rest.takeWhile (· != '-')
        let after := (rest.dropWhile (· != '-')).tail
        let segment :=
          if inner.isEmpty then ['&']
          else (decodeShift inner).getD ('&' :: inner ++ ['-'])
        segment ++ decodeFrom after
      else
        char :: rest
termination_by input => input.length
decreasing_by
  · simp
  · have shorter := (List.dropWhile_suffix (· != '-') (l := rest)).length_le
    simp only [List.length_tail, List.length_cons]
    omega

def decodeModifiedUtf7 (input : String) : String :=
  String.ofList (decodeFrom input.toList)

/-- `ch.is_ascii() && (0x20..=0x7e).contains(&ch)`. -/
def isPrintable (char : Char) : Bool :=
  decide (char.toNat < 0x80) && decide (0x20 ≤ char.toNat) &&
    decide (char.toNat ≤ 0x7e)

/-- The text of a run of units between `&` and `-`. -/
def shiftText (run : List UInt16) : List Char :=
  ((base64Encode (run.flatMap unitBytes)).map
    fun char => if char = '/' then ',' else char).rdropWhile (· == '=')

/-- Write the pending run, if there is one. -/
def flush (state : List Char × List UInt16) : List Char × List UInt16 :=
  if state.2.isEmpty then
    state
  else
    (state.1 ++ ('&' :: shiftText state.2 ++ ['-']), [])

/-- One character of `encode_modified_utf7`. -/
def encodeStep
    (state : List Char × List UInt16)
    (char : Char) : List Char × List UInt16 :=
  if char = '&' then
    ((flush state).1 ++ ['&', '-'], (flush state).2)
  else if isPrintable char then
    ((flush state).1 ++ [char], (flush state).2)
  else
    (state.1, state.2 ++ encodeUtf16 char)

def encodeModifiedUtf7 (input : String) : String :=
  String.ofList (flush (input.toList.foldl encodeStep ([], []))).1

/-! ## Groups of three bytes -/

theorem shiftLeft_or {low shift : Nat} (bound : low < 2 ^ shift) (high : Nat) :
    high * 2 ^ shift ||| low = high * 2 ^ shift + low := by
  rw [Nat.mul_comm, Nat.two_pow_add_eq_or_of_lt bound]

/-- Gathered digits are a number in their base, moved to the top. -/
theorem gather_eq
    {top step : Nat}
    {digits : List Nat}
    (fits : step * digits.length ≤ top + step)
    (bound : ∀ digit ∈ digits, digit < 2 ^ step) :
    gather top step digits =
      digits.foldl (fun value digit => value * 2 ^ step + digit) 0 *
        2 ^ (top + step - step * digits.length) := by
  induction digits using List.reverseRecOn with
  | nil => simp [gather]
  | append_singleton before last inductionHypothesis =>
      simp only [List.length_append, List.length_singleton, Nat.mul_add,
        Nat.mul_one] at fits ⊢
      have earlier := inductionHypothesis (by omega)
        (fun digit member => bound digit (List.mem_append_left _ member))
      have lastBound : last < 2 ^ step := bound last (by simp)
      obtain ⟨rest, remains⟩ :
          ∃ rest, rest = top - step * before.length := ⟨_, rfl⟩
      have above :
          top + step - step * before.length = step + rest := by omega
      have after :
          top + step - (step * before.length + step) = rest := by omega
      have small : last * 2 ^ rest < 2 ^ (step + rest) := by
        rw [Nat.pow_add]
        exact Nat.mul_lt_mul_of_pos_right lastBound (Nat.two_pow_pos rest)
      unfold gather at earlier ⊢
      rw [List.zipIdx_append, List.foldl_append, earlier, above, after]
      simp only [List.zipIdx_singleton, List.foldl_cons, List.foldl_nil,
        List.foldl_append, Nat.zero_add, Nat.shiftLeft_eq, ← remains]
      rw [shiftLeft_or small, Nat.add_mul, Nat.mul_assoc, ← Nat.pow_add]

theorem shiftRight_and (value shift : Nat) :
    (value >>> shift) &&& 63 = value / 2 ^ shift % 64 := by
  have mask : (63 : Nat) = 2 ^ 6 - 1 := rfl
  rw [Nat.shiftRight_eq_div_pow, mask, Nat.and_two_pow_sub_one_eq_mod]

theorem shiftRight_and_byte (value shift : Nat) :
    (value >>> shift) &&& 0xff = value / 2 ^ shift % 256 := by
  have mask : (0xff : Nat) = 2 ^ 8 - 1 := rfl
  rw [Nat.shiftRight_eq_div_pow, mask, Nat.and_two_pow_sub_one_eq_mod]

theorem lt_of_mem_sextets
    {chunk : List UInt8}
    {value : Nat}
    (member : value ∈ sextets chunk) : value < 64 := by
  obtain ⟨position, _, rfl⟩ := List.mem_map.mp member
  rw [shiftRight_and]
  exact Nat.mod_lt _ (by omega)

theorem gather_bytes (chunk : List UInt8) (short : chunk.length ≤ 3) :
    gather 16 8 (chunk.map UInt8.toNat) =
      (chunk.map UInt8.toNat).foldl (fun value digit => value * 2 ^ 8 + digit) 0 *
        2 ^ (24 - 8 * chunk.length) := by
  rw [gather_eq, List.length_map]
  · rw [List.length_map]
    omega
  · intro digit member
    obtain ⟨byte, _, rfl⟩ := List.mem_map.mp member
    exact byte.toNat_lt

theorem gather_sextets (digits : List Nat) (short : digits.length ≤ 4)
    (bound : ∀ digit ∈ digits, digit < 64) :
    gather 18 6 digits =
      digits.foldl (fun value digit => value * 2 ^ 6 + digit) 0 *
        2 ^ (24 - 6 * digits.length) :=
  gather_eq (by omega) bound

theorem sextets_one (first : UInt8) :
    sextets [first] = [first.toNat / 4, first.toNat % 4 * 16] := by
  have bound := first.toNat_lt
  have gathered : gather 16 8 [first.toNat] = first.toNat * 65536 := by
    simpa using gather_bytes [first] (by simp)
  simp only [sextets, List.map_cons, List.map_nil, gathered, shiftRight_and,
    List.length_singleton]
  simp only [List.range, List.range.loop, List.map_cons, List.map_nil,
    List.cons.injEq, and_true]
  omega

theorem sextets_two (first second : UInt8) :
    sextets [first, second] =
      [first.toNat / 4, first.toNat % 4 * 16 + second.toNat / 16,
        second.toNat % 16 * 4] := by
  have firstBound := first.toNat_lt
  have secondBound := second.toNat_lt
  have gathered : gather 16 8 [first.toNat, second.toNat] =
      (first.toNat * 256 + second.toNat) * 256 := by
    simpa using gather_bytes [first, second] (by simp)
  simp only [sextets, List.map_cons, List.map_nil, gathered, shiftRight_and,
    List.length_cons, List.length_nil]
  simp only [List.range, List.range.loop, List.map_cons, List.map_nil,
    List.cons.injEq, and_true]
  omega

theorem sextets_three (first second third : UInt8) :
    sextets [first, second, third] =
      [first.toNat / 4, first.toNat % 4 * 16 + second.toNat / 16,
        second.toNat % 16 * 4 + third.toNat / 64, third.toNat % 64] := by
  have firstBound := first.toNat_lt
  have secondBound := second.toNat_lt
  have thirdBound := third.toNat_lt
  have gathered : gather 16 8 [first.toNat, second.toNat, third.toNat] =
      (first.toNat * 256 + second.toNat) * 256 + third.toNat := by
    simpa using gather_bytes [first, second, third] (by simp)
  simp only [sextets, List.map_cons, List.map_nil, gathered, shiftRight_and,
    List.length_cons, List.length_nil]
  simp only [List.range, List.range.loop, List.map_cons, List.map_nil,
    List.cons.injEq, and_true]
  omega

theorem byte_eq {byte : UInt8} {value : Nat} (same : value = byte.toNat) :
    UInt8.ofNat value = byte := by
  rw [same, UInt8.ofNat_toNat]

/-- A group of one to three bytes is read back from its letters. -/
theorem octets_sextets
    {chunk : List UInt8}
    (nonempty : chunk ≠ [])
    (short : chunk.length ≤ 3) :
    octets (sextets chunk) = some chunk := by
  rcases chunk with _ | ⟨first, _ | ⟨second, _ | ⟨third, _ | ⟨fourth, rest⟩⟩⟩⟩
  · exact absurd rfl nonempty
  · have firstBound := first.toNat_lt
    have gathered := gather_sextets (sextets [first])
      (by simp [sextets]) (fun _ => lt_of_mem_sextets)
    rw [sextets_one] at gathered ⊢
    simp only [octets, gathered, shiftRight_and_byte, List.length_cons,
      List.length_nil, List.foldl_cons, List.foldl_nil]
    simp only [List.range, List.range.loop, List.map_cons, List.map_nil,
      Option.map_some, Option.some.injEq, List.cons.injEq, and_true]
    apply byte_eq
    omega
  · have firstBound := first.toNat_lt
    have secondBound := second.toNat_lt
    have gathered := gather_sextets (sextets [first, second])
      (by simp [sextets]) (fun _ => lt_of_mem_sextets)
    rw [sextets_two] at gathered ⊢
    simp only [octets, gathered, shiftRight_and_byte, List.length_cons,
      List.length_nil, List.foldl_cons, List.foldl_nil]
    simp only [List.range, List.range.loop, List.map_cons, List.map_nil,
      Option.map_some, Option.some.injEq, List.cons.injEq, and_true]
    refine ⟨byte_eq ?_, byte_eq ?_⟩ <;> omega
  · have firstBound := first.toNat_lt
    have secondBound := second.toNat_lt
    have thirdBound := third.toNat_lt
    have gathered := gather_sextets (sextets [first, second, third])
      (by simp [sextets]) (fun _ => lt_of_mem_sextets)
    rw [sextets_three] at gathered ⊢
    simp only [octets, gathered, shiftRight_and_byte, List.length_cons,
      List.length_nil, List.foldl_cons, List.foldl_nil]
    simp only [List.range, List.range.loop, List.map_cons, List.map_nil,
      Option.map_some, Option.some.injEq, List.cons.injEq, and_true]
    refine ⟨byte_eq ?_, byte_eq ?_, byte_eq ?_⟩ <;> omega
  · simp only [List.length_cons] at short
    omega

/-- The bits of a byte, cut in two. -/
theorem bits_byte (high low : Nat) (byte : UInt8) :
    bits (high + low) byte.toNat =
      bits high (byte.toNat / 2 ^ low) ++ bits low (byte.toNat % 2 ^ low) := by
  rw [Data.bits_add, Data.bits_mod]

/-- Zeros behind a number. -/
theorem bits_zeros (high low top : Nat) :
    bits (high + low) (top * 2 ^ low) = bits high top ++ bits low 0 := by
  simpa using Data.bits_join high low top 0 (Nat.two_pow_pos low)

/-- The letters of a group carry its bits and fewer than six zeros. -/
theorem bits_sextets
    {chunk : List UInt8}
    (nonempty : chunk ≠ [])
    (short : chunk.length ≤ 3) :
    (sextets chunk).flatMap (bits 6) =
      (chunk.map UInt8.toNat).flatMap (bits 8) ++
        List.replicate (6 - 2 * chunk.length) false := by
  rcases chunk with _ | ⟨first, _ | ⟨second, _ | ⟨third, _ | ⟨fourth, rest⟩⟩⟩⟩
  · exact absurd rfl nonempty
  · have whole := bits_byte 6 2 first
    have middle : bits 6 (first.toNat % 4 * 16) =
        bits 2 (first.toNat % 4) ++ bits 4 0 :=
      bits_zeros 2 4 (first.toNat % 4)
    rw [sextets_one]
    simp only [List.flatMap_cons, List.flatMap_nil, List.map_cons,
      List.map_nil, List.append_nil, middle, whole, List.append_assoc]
    rfl
  · have secondBound := second.toNat_lt
    have whole := bits_byte 6 2 first
    have other := bits_byte 4 4 second
    have middle : bits 6 (first.toNat % 4 * 16 + second.toNat / 16) =
        bits 2 (first.toNat % 4) ++ bits 4 (second.toNat / 16) :=
      Data.bits_join 2 4 _ _ (by omega)
    have last : bits 6 (second.toNat % 16 * 4) =
        bits 4 (second.toNat % 16) ++ bits 2 0 :=
      bits_zeros 4 2 (second.toNat % 16)
    rw [sextets_two]
    simp only [List.flatMap_cons, List.flatMap_nil, List.map_cons,
      List.map_nil, List.append_nil, middle, last, whole, other,
      List.append_assoc]
    rfl
  · have secondBound := second.toNat_lt
    have thirdBound := third.toNat_lt
    have whole := bits_byte 6 2 first
    have other := bits_byte 4 4 second
    have final := bits_byte 2 6 third
    have middle : bits 6 (first.toNat % 4 * 16 + second.toNat / 16) =
        bits 2 (first.toNat % 4) ++ bits 4 (second.toNat / 16) :=
      Data.bits_join 2 4 _ _ (by omega)
    have last : bits 6 (second.toNat % 16 * 4 + third.toNat / 64) =
        bits 4 (second.toNat % 16) ++ bits 2 (third.toNat / 64) :=
      Data.bits_join 4 2 _ _ (by omega)
    rw [sextets_three]
    simp only [List.flatMap_cons, List.flatMap_nil, List.map_cons,
      List.map_nil, List.append_nil, middle, last, whole, other, final,
      List.append_assoc]
    rfl
  · simp only [List.length_cons] at short
    omega

/-! ## Whole texts -/

/-- The six-bit values of a byte string. -/
def values (bytes : List UInt8) : List Nat :=
  (chunks 3 bytes).flatMap sextets

theorem values_append {piece : List UInt8} (full : piece.length = 3)
    (rest : List UInt8) :
    values (piece ++ rest) = sextets piece ++ values rest := by
  rw [values, Data.chunks_append full (by omega), List.flatMap_cons, values]

theorem values_short {bytes : List UInt8} (nonempty : bytes ≠ [])
    (short : bytes.length ≤ 3) : values bytes = sextets bytes := by
  rw [values, Data.chunks_short nonempty short, List.flatMap_cons,
    List.flatMap_nil, List.append_nil]

theorem length_sextets (chunk : List UInt8) :
    (sextets chunk).length = 4 - (3 - chunk.length) := by
  simp [sextets]

theorem lt_of_mem_values
    {bytes : List UInt8}
    {value : Nat}
    (member : value ∈ values bytes) : value < 64 := by
  obtain ⟨_, _, inside⟩ := List.mem_flatMap.mp member
  exact lt_of_mem_sextets inside

/-- The values are read back group by group. -/
theorem octets_values (bytes : List UInt8) :
    (chunks 4 (values bytes)).mapM octets = some (chunks 3 bytes) := by
  induction bytes using Data.chunks_induction 3 (by omega) with
  | empty => rfl
  | short bytes nonempty short =>
      have length := length_sextets bytes
      have some : sextets bytes ≠ [] := by
        intro none
        rw [none, List.length_nil] at length
        omega
      rw [values_short nonempty short.le,
        Data.chunks_short nonempty short.le,
        Data.chunks_short some (by omega), List.mapM_cons,
        octets_sextets nonempty short.le]
      rfl
  | full piece rest full inductionHypothesis =>
      have nonempty : piece ≠ [] := by
        intro none
        rw [none, List.length_nil] at full
        omega
      rw [values_append full, Data.chunks_append full (by omega),
        Data.chunks_append (by rw [length_sextets, full]) (by omega),
        List.mapM_cons, octets_sextets nonempty full.le, inductionHypothesis]
      rfl

/-- The values carry the bits of the bytes and fewer than six zeros. -/
theorem bits_values (bytes : List UInt8) :
    ∃ padding, padding < 6 ∧
      (values bytes).flatMap (bits 6) =
        (bytes.map UInt8.toNat).flatMap (bits 8) ++
          List.replicate padding false := by
  induction bytes using Data.chunks_induction 3 (by omega) with
  | empty => exact ⟨0, by omega, rfl⟩
  | short bytes nonempty short =>
      have positive := List.length_pos_of_ne_nil nonempty
      refine ⟨6 - 2 * bytes.length, by omega, ?_⟩
      rw [values_short nonempty short.le, bits_sextets nonempty short.le]
  | full piece rest full inductionHypothesis =>
      obtain ⟨padding, bound, same⟩ := inductionHypothesis
      have nonempty : piece ≠ [] := by
        intro none
        rw [none, List.length_nil] at full
        omega
      refine ⟨padding, bound, ?_⟩
      rw [values_append full, List.flatMap_append, same,
        bits_sextets nonempty full.le, full, List.map_append,
        List.flatMap_append]
      simp

/-- Six bits as the wire writes them. -/
def wireLetter (value : Nat) : Char :=
  if letter value = '/' then ',' else letter value

theorem letter_facts : ∀ value < 64,
    b64Value (letter value) = some value ∧ letter value ≠ '=' ∧
      wireLetter value ≠ '=' ∧ wireLetter value ≠ '-' ∧
      isPrintable (wireLetter value) ∧
      ((wireLetter value).isAlphanum || wireLetter value == '+' ||
        wireLetter value == ',' || wireLetter value == '/') = true ∧
      (if wireLetter value = ',' then '/' else wireLetter value) =
        letter value := by
  decide

theorem base64Encode_eq (bytes : List UInt8) :
    ∃ padding, base64Encode bytes =
      (values bytes).map letter ++ List.replicate padding '=' := by
  induction bytes using Data.chunks_induction 3 (by omega) with
  | empty => exact ⟨0, rfl⟩
  | short bytes nonempty short =>
      refine ⟨3 - bytes.length, ?_⟩
      rw [values_short nonempty short.le, base64Encode,
        Data.chunks_short nonempty short.le, List.flatMap_cons,
        List.flatMap_nil, List.append_nil]
  | full piece rest full inductionHypothesis =>
      obtain ⟨padding, same⟩ := inductionHypothesis
      refine ⟨padding, ?_⟩
      unfold base64Encode at same ⊢
      rw [values_append full, Data.chunks_append full (by omega),
        List.flatMap_cons, same, full, List.map_append]
      simp

theorem rdropWhile_replicate
    {text : List Char}
    (clean : ∀ char ∈ text, char ≠ '=')
    (padding : Nat) :
    (text ++ List.replicate padding '=').rdropWhile (· == '=') = text := by
  induction padding with
  | zero =>
      rw [List.replicate_zero, List.append_nil, List.rdropWhile_eq_self_iff]
      intro nonempty
      simpa using clean _ (List.getLast_mem nonempty)
  | succ padding inductionHypothesis =>
      rw [List.replicate_succ', ← List.append_assoc,
        List.rdropWhile_concat_pos _ _ _ (by rfl), inductionHypothesis]

/-- A run is written as the letters of its bytes. -/
theorem shiftText_eq (run : List UInt16) :
    shiftText run = (values (run.flatMap unitBytes)).map wireLetter := by
  obtain ⟨padding, same⟩ := base64Encode_eq (run.flatMap unitBytes)
  rw [shiftText, same, List.map_append, List.map_map, List.map_replicate]
  change (List.map wireLetter _ ++ List.replicate padding '=').rdropWhile _ = _
  apply rdropWhile_replicate
  intro char member
  obtain ⟨value, inside, rfl⟩ := List.mem_map.mp member
  exact (letter_facts value (lt_of_mem_values inside)).2.2.1

end Utf7
end Imap
end Mailcore

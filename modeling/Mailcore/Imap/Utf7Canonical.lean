import Mailcore.Imap.Utf7

/-!
# Canonical names

What is encoded is decoded again, and the encoded names are exactly the
canonical ones: the standard's form, with one shifted run for every stretch of
characters that cannot stand for themselves.
-/

namespace Mailcore
namespace Imap
namespace Utf7

open Data (bits chunks)
open Text (encodeUtf16 decodeUtf16)

/-! ## One run -/

theorem b64Values_letters
    {digits : List Nat}
    (bound : ∀ value ∈ digits, value < 64)
    (padding : Nat) :
    b64Values (digits.map letter ++ List.replicate padding '=') =
      some digits := by
  induction digits with
  | nil => cases padding <;> rfl
  | cons head tail inductionHypothesis =>
      obtain ⟨read, notPadding, _⟩ :=
        letter_facts head (bound head List.mem_cons_self)
      have rest := inductionHypothesis
        fun value member => bound value (List.mem_cons_of_mem _ member)
      rw [List.map_cons, List.cons_append, b64Values, if_neg notPadding, read,
        Option.bind_some, rest]
      rfl

theorem join_bytes (unit : UInt16) :
    (unit >>> 8).toUInt8.toUInt16 <<< 8 |||
      (unit &&& 0xff).toUInt8.toUInt16 = unit := by
  apply UInt16.toNat_inj.mp
  have bound := unit.toNat_lt
  have high : ((unit >>> 8).toUInt8.toUInt16 <<< 8).toNat =
      unit.toNat / 256 * 2 ^ 8 := by
    simp [Nat.shiftRight_eq_div_pow, Nat.shiftLeft_eq]
    omega
  have low : ((unit &&& 0xff).toUInt8.toUInt16).toNat = unit.toNat % 256 := by
    have masked : unit.toNat % 256 &&& 255 = unit.toNat % 256 % 256 :=
      Nat.and_two_pow_sub_one_eq_mod _ 8
    simpa using masked
  rw [UInt16.toNat_or, high, low, shiftLeft_or (by omega)]
  omega

@[simp] theorem bytesUnits_flatMap (run : List UInt16) :
    bytesUnits (run.flatMap unitBytes) = run := by
  induction run with
  | nil => rfl
  | cons head tail inductionHypothesis =>
      rw [List.flatMap_cons, unitBytes, List.cons_append,
        List.singleton_append, bytesUnits, inductionHypothesis, join_bytes]

theorem length_flatMap_unitBytes (run : List UInt16) :
    (run.flatMap unitBytes).length = 2 * run.length := by
  induction run with
  | nil => rfl
  | cons head tail inductionHypothesis =>
      rw [List.flatMap_cons, List.length_append, inductionHypothesis,
        List.length_cons, unitBytes, List.length_cons, List.length_singleton]
      omega

theorem base64Decode_values
    (bytes : List UInt8)
    (padding : Nat) :
    base64Decode ((values bytes).map letter ++ List.replicate padding '=') =
      some bytes := by
  rw [base64Decode, b64Values_letters fun _ => lt_of_mem_values,
    Option.bind_some, octets_values, Option.map_some, Data.flatten_chunks]

/-- A run of characters is read back. -/
theorem decodeShift_shiftText (chars : List Char) :
    decodeShift (shiftText (chars.flatMap encodeUtf16)) = some chars := by
  rw [shiftText_eq]
  have allowed : ((values ((chars.flatMap encodeUtf16).flatMap unitBytes)).map
      wireLetter).all (fun char => char.isAlphanum || char == '+' ||
        char == ',' || char == '/') = true := by
    rw [List.all_eq_true]
    intro char member
    obtain ⟨value, inside, rfl⟩ := List.mem_map.mp member
    exact (letter_facts value (lt_of_mem_values inside)).2.2.2.2.2.1
  have standard : ((values ((chars.flatMap encodeUtf16).flatMap unitBytes)).map
      wireLetter).map (fun char => if char = ',' then '/' else char) =
        (values ((chars.flatMap encodeUtf16).flatMap unitBytes)).map
          letter := by
    rw [List.map_map]
    apply List.map_congr_left
    intro value inside
    exact (letter_facts value (lt_of_mem_values inside)).2.2.2.2.2.2
  rw [decodeShift, if_pos allowed]
  simp only [standard]
  rw [base64Decode_values, Option.bind_some, length_flatMap_unitBytes,
    if_neg (by omega), bytesUnits_flatMap, Text.decodeUtf16_flatMap]

/-! ## Whole names -/

/-- What is still to be written: the pending run and the characters after
it. -/
def remaining (run : List UInt16) (input : List Char) : List Char :=
  (flush (input.foldl encodeStep ([], run))).1

/-- What was written stays. -/
theorem foldl_encodeStep (out : List Char) (run : List UInt16)
    (input : List Char) :
    (flush (input.foldl encodeStep (out, run))).1 =
      out ++ remaining run input := by
  induction input generalizing out run with
  | nil =>
      cases run with
      | nil => simp [remaining, flush]
      | cons head tail => simp [remaining, flush]
  | cons char rest inductionHypothesis =>
      have step : encodeStep (out, run) char =
          (out ++ (encodeStep ([], run) char).1,
            (encodeStep ([], run) char).2) := by
        unfold encodeStep flush
        split_ifs <;> simp
      unfold remaining
      rw [List.foldl_cons, List.foldl_cons, step, inductionHypothesis,
        List.append_assoc, ← inductionHypothesis]

/-- A pending run as it will be written. -/
def written (run : List UInt16) : List Char :=
  if run.isEmpty then [] else '&' :: shiftText run ++ ['-']

theorem flush_nil (run : List UInt16) : flush ([], run) = (written run, []) := by
  unfold flush written
  cases run <;> rfl

@[simp] theorem remaining_nil (run : List UInt16) :
    remaining run [] = written run := by
  rw [remaining, List.foldl_nil, flush_nil]

@[simp] theorem remaining_ampersand (run : List UInt16) (rest : List Char) :
    remaining run ('&' :: rest) =
      written run ++ '&' :: '-' :: remaining [] rest := by
  rw [remaining, List.foldl_cons, encodeStep, if_pos rfl, foldl_encodeStep,
    flush_nil]
  simp

theorem remaining_printable (run : List UInt16) {char : Char}
    (rest : List Char) (printable : isPrintable char) (other : char ≠ '&') :
    remaining run (char :: rest) =
      written run ++ char :: remaining [] rest := by
  rw [remaining, List.foldl_cons, encodeStep, if_neg other, if_pos printable,
    foldl_encodeStep, flush_nil]
  simp

theorem isPrintable_ampersand : isPrintable '&' = true := by decide

theorem remaining_shifted (run : List UInt16) {char : Char}
    (rest : List Char) (shifted : ¬ isPrintable char) :
    remaining run (char :: rest) =
      remaining (run ++ encodeUtf16 char) rest := by
  have other : char ≠ '&' := by
    intro same
    exact shifted (same ▸ isPrintable_ampersand)
  rw [remaining, List.foldl_cons, encodeStep, if_neg other, if_neg shifted,
    foldl_encodeStep, List.nil_append]

theorem remaining_run (run : List UInt16) {chars : List Char}
    (shifted : ∀ char ∈ chars, ¬ isPrintable char) (rest : List Char) :
    remaining run (chars ++ rest) =
      remaining (run ++ chars.flatMap encodeUtf16) rest := by
  induction chars generalizing run with
  | nil => simp
  | cons head tail inductionHypothesis =>
      rw [List.cons_append,
        remaining_shifted _ _ (shifted head List.mem_cons_self),
        inductionHypothesis _ fun char member =>
          shifted char (List.mem_cons_of_mem _ member),
        List.flatMap_cons, List.append_assoc]

theorem encode_eq (input : String) :
    encodeModifiedUtf7 input = String.ofList (remaining [] input.toList) := by
  rw [encodeModifiedUtf7, remaining]

theorem decodeFrom_direct {char : Char} (other : char ≠ '&')
    (rest : List Char) :
    decodeFrom (char :: rest) = char :: decodeFrom rest := by
  rw [decodeFrom, if_pos other]

/-- A segment ends at the first `-` after its `&`. -/
theorem decodeFrom_segment
    {inner : List Char}
    (clean : '-' ∉ inner)
    (rest : List Char) :
    decodeFrom ('&' :: inner ++ '-' :: rest) =
      (if inner.isEmpty then ['&']
        else (decodeShift inner).getD ('&' :: inner ++ ['-'])) ++
          decodeFrom rest := by
  have differs : ∀ char ∈ inner, (char != '-') = true := by
    intro char member
    rw [bne_iff_ne]
    intro same
    exact clean (same ▸ member)
  have before : (inner ++ '-' :: rest).takeWhile (· != '-') = inner := by
    rw [List.takeWhile_append_of_pos differs]
    simp
  have after : (inner ++ '-' :: rest).dropWhile (· != '-') = '-' :: rest := by
    rw [List.dropWhile_append_of_pos differs]
    simp
  rw [List.cons_append, decodeFrom, if_neg (by simp),
    if_pos (List.mem_append_right _ List.mem_cons_self)]
  simp only [before, after, List.tail_cons]

theorem not_mem_shiftText (run : List UInt16) : '-' ∉ shiftText run := by
  rw [shiftText_eq]
  intro member
  obtain ⟨value, inside, same⟩ := List.mem_map.mp member
  exact (letter_facts value (lt_of_mem_values inside)).2.2.2.1 same

theorem run_ne_nil {chars : List Char} (nonempty : chars ≠ []) :
    chars.flatMap encodeUtf16 ≠ [] := by
  cases chars with
  | nil => exact absurd rfl nonempty
  | cons head tail =>
      intro empty
      rw [List.flatMap_cons, List.append_eq_nil_iff] at empty
      exact Text.encodeUtf16_ne_nil head empty.1

theorem values_ne_nil {bytes : List UInt8} (nonempty : bytes ≠ []) :
    values bytes ≠ [] := by
  intro empty
  have read := octets_values bytes
  rw [empty] at read
  have pieces : chunks 3 bytes = [] := by simpa using read.symm
  have whole := Data.flatten_chunks 3 bytes
  rw [pieces] at whole
  exact nonempty whole.symm

theorem shiftText_ne_nil {run : List UInt16} (nonempty : run ≠ []) :
    shiftText run ≠ [] := by
  rw [shiftText_eq]
  intro empty
  apply values_ne_nil _ (List.map_eq_nil_iff.mp empty)
  intro none
  have length := length_flatMap_unitBytes run
  rw [none, List.length_nil] at length
  exact nonempty (List.eq_nil_of_length_eq_zero (by omega))

/-- A written run is decoded to its characters. -/
theorem decodeFrom_written (chars rest : List Char) :
    decodeFrom (written (chars.flatMap encodeUtf16) ++ rest) =
      chars ++ decodeFrom rest := by
  by_cases empty : chars = []
  · subst empty
    rfl
  · have run := run_ne_nil empty
    have segment := decodeFrom_segment
      (not_mem_shiftText (chars.flatMap encodeUtf16)) rest
    rw [written, if_neg (by simpa using run), List.append_assoc,
      List.singleton_append, segment,
      if_neg (by simpa using shiftText_ne_nil run), decodeShift_shiftText]
    rfl

/-- The whole transducer: what is still to be written decodes to the
characters it stands for. -/
theorem decodeFrom_remaining (pending input : List Char) :
    decodeFrom (remaining (pending.flatMap encodeUtf16) input) =
      pending ++ input := by
  induction input generalizing pending with
  | nil =>
      have single := decodeFrom_written pending []
      rw [List.append_nil, decodeFrom] at single
      rw [remaining_nil, single]
  | cons char rest inductionHypothesis =>
      have fresh : decodeFrom (remaining [] rest) = rest :=
        inductionHypothesis []
      by_cases ampersand : char = '&'
      · subst ampersand
        have segment := decodeFrom_segment (List.not_mem_nil : '-' ∉ [])
          (remaining [] rest)
        rw [remaining_ampersand, decodeFrom_written]
        simpa [fresh] using segment
      · by_cases printable : isPrintable char
        · rw [remaining_printable _ _ printable ampersand, decodeFrom_written,
            decodeFrom_direct ampersand, fresh]
        · have longer := inductionHypothesis (pending ++ [char])
          rw [List.flatMap_append, List.flatMap_singleton] at longer
          rw [remaining_shifted _ _ printable, longer, List.append_assoc,
            List.singleton_append]

/-! ## Canonical names -/

/-- What stands between `&` and `-` in a canonical name: the letters of the
UTF-16 units of characters none of which is printable ASCII, followed by fewer
than six zero bits. -/
def CanonicalShift (text : List Char) : Prop :=
  ∃ (chars : List Char) (digits : List Nat) (padding : Nat),
    chars ≠ [] ∧ (∀ char ∈ chars, ¬ isPrintable char) ∧
      (∀ digit ∈ digits, digit < 64) ∧ padding < 6 ∧
      text = digits.map wireLetter ∧
      digits.flatMap (bits 6) =
        ((chars.flatMap encodeUtf16).map UInt16.toNat).flatMap (bits 16) ++
          List.replicate padding false

/-- The standard's form of a name.  The flag says that a shifted run has just
ended, after which no other may begin. -/
inductive Canonical : Bool → List Char → Prop
  | nil (ended : Bool) : Canonical ended []
  | ampersand (ended : Bool) (rest : List Char) :
      Canonical false rest → Canonical ended ('&' :: '-' :: rest)
  | direct (ended : Bool) (char : Char) (rest : List Char) :
      isPrintable char → char ≠ '&' → Canonical false rest →
        Canonical ended (char :: rest)
  | shift (text rest : List Char) :
      CanonicalShift text → Canonical true rest →
        Canonical false ('&' :: text ++ '-' :: rest)

theorem Canonical.anyway {name : List Char} {ended : Bool}
    (canonical : Canonical true name) : Canonical ended name := by
  cases canonical with
  | nil => exact .nil ended
  | ampersand _ rest more => exact .ampersand ended rest more
  | direct _ char rest printable other more =>
      exact .direct ended char rest printable other more

theorem unitBytes_toNat (unit : UInt16) :
    (unitBytes unit).map UInt8.toNat = [unit.toNat / 256, unit.toNat % 256] := by
  have bound := unit.toNat_lt
  have masked : unit.toNat &&& 255 = unit.toNat % 256 :=
    Nat.and_two_pow_sub_one_eq_mod _ 8
  have small : unit.toNat / 256 % 256 = unit.toNat / 256 := by omega
  simp only [unitBytes, List.map_cons, List.map_nil, UInt16.toNat_toUInt8,
    UInt16.toNat_shiftRight, List.cons.injEq, and_true]
  constructor
  · simpa [Nat.shiftRight_eq_div_pow] using small
  · change (unit.toNat &&& 255) % 256 = _
    rw [masked, Nat.mod_mod]

/-- Units have the bits of their bytes. -/
theorem bits_unitBytes (run : List UInt16) :
    ((run.flatMap unitBytes).map UInt8.toNat).flatMap (bits 8) =
      (run.map UInt16.toNat).flatMap (bits 16) := by
  induction run with
  | nil => rfl
  | cons head tail inductionHypothesis =>
      have whole : bits 16 head.toNat =
          bits 8 (head.toNat / 2 ^ 8) ++ bits 8 (head.toNat % 2 ^ 8) := by
        rw [Data.bits_mod]
        exact Data.bits_add 8 8 head.toNat
      rw [List.flatMap_cons, List.map_append, List.flatMap_append,
        inductionHypothesis, unitBytes_toNat, List.map_cons]
      simp [whole]

/-- A written run is canonical. -/
theorem canonicalShift_shiftText
    {chars : List Char}
    (nonempty : chars ≠ [])
    (shifted : ∀ char ∈ chars, ¬ isPrintable char) :
    CanonicalShift (shiftText (chars.flatMap encodeUtf16)) := by
  obtain ⟨padding, bound, same⟩ :=
    bits_values ((chars.flatMap encodeUtf16).flatMap unitBytes)
  rw [bits_unitBytes] at same
  exact ⟨chars, _, padding, nonempty, shifted, fun _ => lt_of_mem_values,
    bound, shiftText_eq _, same⟩

/-- A canonical run is the one that is written for its characters: its bits
leave no choice. -/
theorem eq_shiftText_of_canonicalShift
    {text : List Char}
    (canonical : CanonicalShift text) :
    ∃ chars, chars ≠ [] ∧ (∀ char ∈ chars, ¬ isPrintable char) ∧
      text = shiftText (chars.flatMap encodeUtf16) := by
  obtain ⟨chars, digits, padding, nonempty, shifted, bound, small, rfl, same⟩ :=
    canonical
  obtain ⟨otherPadding, otherSmall, otherSame⟩ :=
    bits_values ((chars.flatMap encodeUtf16).flatMap unitBytes)
  rw [bits_unitBytes] at otherSame
  refine ⟨chars, nonempty, shifted, ?_⟩
  have length := congrArg List.length same
  have otherLength := congrArg List.length otherSame
  rw [List.length_append, List.length_replicate,
    Data.length_flatMap_bits] at length otherLength
  have samePadding : padding = otherPadding := by omega
  have digitsSame : digits =
      values ((chars.flatMap encodeUtf16).flatMap unitBytes) := by
    apply Data.flatMap_bits_inj 6 bound
    · intro value
      exact lt_of_mem_values
    · omega
    · rw [same, otherSame, samePadding]
  rw [shiftText_eq, digitsSame]

theorem canonical_written
    {chars rest : List Char}
    (shifted : ∀ char ∈ chars, ¬ isPrintable char)
    (more : Canonical true rest) :
    Canonical false (written (chars.flatMap encodeUtf16) ++ rest) := by
  by_cases empty : chars = []
  · subst empty
    exact more.anyway
  · have run := run_ne_nil empty
    rw [written, if_neg (by simpa using run), List.append_assoc,
      List.singleton_append]
    exact .shift _ _ (canonicalShift_shiftText empty shifted) more

/-- Every name that is written is canonical. -/
theorem canonical_remaining
    (pending input : List Char)
    (shifted : ∀ char ∈ pending, ¬ isPrintable char) :
    Canonical false (remaining (pending.flatMap encodeUtf16) input) := by
  induction input generalizing pending with
  | nil =>
      have single := canonical_written shifted (.nil true)
      rw [List.append_nil] at single
      rwa [remaining_nil]
  | cons char rest inductionHypothesis =>
      have fresh : Canonical false (remaining [] rest) :=
        inductionHypothesis [] (by simp)
      by_cases ampersand : char = '&'
      · subst ampersand
        rw [remaining_ampersand]
        exact canonical_written shifted (.ampersand true _ fresh)
      · by_cases printable : isPrintable char
        · rw [remaining_printable _ _ printable ampersand]
          exact canonical_written shifted
            (.direct true char _ printable ampersand fresh)
        · have longer := inductionHypothesis (pending ++ [char]) (by
            intro other member
            rcases List.mem_append.mp member with earlier | last
            · exact shifted other earlier
            · rwa [List.mem_singleton.mp last])
          rw [List.flatMap_append, List.flatMap_singleton] at longer
          rwa [remaining_shifted _ _ printable]

/-- Every canonical name is written for some characters; after a shifted run
none of them begins another. -/
theorem exists_remaining_of_canonical
    {ended : Bool}
    {name : List Char}
    (canonical : Canonical ended name) :
    ∃ input, remaining [] input = name ∧
      (ended = true → ∀ run, remaining run input = written run ++ name) := by
  induction canonical with
  | nil ended =>
      refine ⟨[], rfl, fun _ run => ?_⟩
      rw [remaining_nil, List.append_nil]
  | ampersand ended rest _ inductionHypothesis =>
      obtain ⟨input, same, _⟩ := inductionHypothesis
      refine ⟨'&' :: input, ?_, fun _ run => ?_⟩
      · rw [remaining_ampersand, same]
        rfl
      · rw [remaining_ampersand, same]
  | direct ended char rest printable other _ inductionHypothesis =>
      obtain ⟨input, same, _⟩ := inductionHypothesis
      refine ⟨char :: input, ?_, fun _ run => ?_⟩
      · rw [remaining_printable _ _ printable other, same]
        rfl
      · rw [remaining_printable _ _ printable other, same]
  | shift text rest shift _ inductionHypothesis =>
      obtain ⟨input, _, after⟩ := inductionHypothesis
      obtain ⟨chars, nonempty, shifted, rfl⟩ :=
        eq_shiftText_of_canonicalShift shift
      refine ⟨chars ++ input, ?_, fun impossible => by cases impossible⟩
      have run := run_ne_nil nonempty
      rw [remaining_run [] shifted, List.nil_append, after rfl, written,
        if_neg (by simpa using run), List.append_assoc,
        List.singleton_append]

/-- The canonical names are the ones that are written. -/
theorem canonical_iff (name : List Char) :
    Canonical false name ↔ ∃ input, remaining [] input = name := by
  constructor
  · intro canonical
    obtain ⟨input, same, _⟩ := exists_remaining_of_canonical canonical
    exact ⟨input, same⟩
  · rintro ⟨input, rfl⟩
    exact canonical_remaining [] input (by simp)

theorem isPrintable_of_canonical
    {ended : Bool}
    {name : List Char}
    (canonical : Canonical ended name) :
    ∀ char ∈ name, isPrintable char := by
  induction canonical with
  | nil => simp
  | ampersand _ rest _ inductionHypothesis =>
      intro char member
      rcases List.mem_cons.mp member with rfl | member
      · exact isPrintable_ampersand
      · rcases List.mem_cons.mp member with rfl | member
        · decide
        · exact inductionHypothesis char member
  | direct _ other rest printable _ _ inductionHypothesis =>
      intro char member
      rcases List.mem_cons.mp member with rfl | member
      · exact printable
      · exact inductionHypothesis char member
  | shift text rest shift _ inductionHypothesis =>
      obtain ⟨_, digits, _, _, _, bound, _, rfl, _⟩ := shift
      intro char member
      rcases List.mem_cons.mp member with rfl | member
      · exact isPrintable_ampersand
      · rcases List.mem_append.mp member with inside | member
        · obtain ⟨digit, digitMember, rfl⟩ := List.mem_map.mp inside
          exact (letter_facts digit (bound digit digitMember)).2.2.2.2.1
        · rcases List.mem_cons.mp member with rfl | member
          · decide
          · exact inductionHypothesis char member

@[simp] theorem decode_encode_toList (input : List Char) :
    decodeFrom (remaining [] input) = input :=
  decodeFrom_remaining [] input

/-- Any text survives encoding and decoding, and only printable ASCII is
written. -/
theorem decode_encode_and_printable (input : String) :
    decodeModifiedUtf7 (encodeModifiedUtf7 input) = input ∧
      ∀ char ∈ (encodeModifiedUtf7 input).toList, isPrintable char := by
  rw [encode_eq, decodeModifiedUtf7, String.toList_ofList,
    decode_encode_toList]
  constructor
  · exact String.ofList_toList
  · exact isPrintable_of_canonical
      ((canonical_iff _).mpr ⟨input.toList, rfl⟩)

end Utf7
end Imap
end Mailcore

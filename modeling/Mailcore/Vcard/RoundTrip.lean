import Mailcore.Vcard.Physical

/-!
# Quoted-printable values of a card

A quoted-printable value is read as the text it encodes, in whatever card it
stands, exactly where no soft line break stands in front of a line that begins
with a blank.
-/

namespace Mailcore
namespace Vcard

open Content (ContentLine Flush flush_cons isBlank lineEnd parseContentLine splitHead unfold)
open Html (byteLen trim trimEnd)
open Text (Unbroken lines)

/-! ## The line of a property -/

theorem splitHead_value {head : List Char} {inQuotes : Bool} {segments : List (List Char)}
    (cut : splitHead inQuotes (head ++ [':']) = some (segments, [])) (value : List Char) :
    splitHead inQuotes (head ++ ':' :: value) = some (segments, value) := by
  induction head generalizing inQuotes segments with
  | nil =>
      cases inQuotes with
      | true => simp [splitHead] at cut
      | false =>
          obtain rfl : [[]] = segments := by simpa [splitHead] using cut
          simp [splitHead]
  | cons c head inductionHypothesis =>
      rw [List.cons_append, splitHead] at cut ⊢
      split_ifs at cut ⊢ with quote semicolon colon
      · obtain ⟨⟨inner, rest⟩, inside, same⟩ := Option.map_eq_some_iff.mp cut
        obtain ⟨rfl, rfl⟩ := Prod.mk.inj same
        rw [inductionHypothesis inside]
        rfl
      · obtain ⟨⟨inner, rest⟩, inside, same⟩ := Option.map_eq_some_iff.mp cut
        obtain ⟨rfl, rfl⟩ := Prod.mk.inj same
        rw [inductionHypothesis inside]
        rfl
      · simp at cut
      · obtain ⟨⟨inner, rest⟩, inside, same⟩ := Option.map_eq_some_iff.mp cut
        obtain ⟨rfl, rfl⟩ := Prod.mk.inj same
        rw [inductionHypothesis inside]
        rfl

/-- A line is its name and parameters with any value behind the colon. -/
theorem parseContentLine_value {head : List Char} {line : ContentLine}
    (parsed : parseContentLine (head ++ [':']) = some line) (valueless : line.value = [])
    (value : List Char) :
    parseContentLine (head ++ ':' :: value) = some { line with value := value } := by
  unfold parseContentLine at parsed ⊢
  cases cut : splitHead false (head ++ [':']) with
  | none =>
      rw [cut] at parsed
      cases parsed
  | some sides =>
      obtain ⟨segments, rest⟩ := sides
      cases segments with
      | nil =>
          rw [cut] at parsed
          cases parsed
      | cons name params =>
          rw [cut] at parsed
          simp only [Option.bind_eq_bind, Option.bind_some, List.head?_cons, Option.map_some,
            List.tail_cons] at parsed
          split_ifs at parsed with named
          obtain rfl := Option.some.inj parsed
          obtain rfl : rest = [] := valueless
          rw [splitHead_value cut value]
          simp only [Option.bind_eq_bind, Option.bind_some, List.head?_cons, Option.map_some,
            List.tail_cons, if_neg named]

/-! ## A card around a value -/

/-- A card with a quoted-printable property: the lines in front of it, its name
and parameters, its line end and what stands behind it. -/
structure Card where
  before : List (List Char × Bool)
  head : List Char
  crlf : Bool
  after : List Char
  line : ContentLine
  read : List Property
  laid : ∀ raw ∈ before, Unbroken raw.1 ∧ Flush raw.1
  opened : ∀ later, readLines 0 0 (before.map Prod.fst ++ later) =
    ((readLines 1 1 later).1, read ++ (readLines 1 1 later).2)
  unbroken : Unbroken head
  flush : Flush (head ++ [':'])
  parsed : parseContentLine (head ++ [':']) = some line
  valueless : line.value = []
  quotedPrintable : isQuotedPrintable line
  isProperty : propertyName line.name ≠ "BEGIN".toList ∧ propertyName line.name ≠ "END".toList
  flushAfter : Flush after

/-- The lines in front of a property, as they are written. -/
def writtenLines (before : List (List Char × Bool)) : List Char :=
  before.flatMap fun raw => raw.1 ++ lineEnd raw.2

/-- The card with an encoding as the property's value. -/
def Card.text (card : Card) (encoding : Encoding) : List Char :=
  writtenLines card.before ++
    (card.head ++ ':' :: (encoding.written ++ (lineEnd card.crlf ++ card.after)))

/-- The value read for the property of a card is the text. -/
def ReadsBack (card : Card) (encoding : Encoding) (text : List Char) : Prop :=
  ∃ properties more property, parseVcard (card.text encoding) = some (properties, more) ∧
    properties[card.read.length]? = some property ∧ property.value = text

/-- What the physical lines of the value are joined to, without soft breaks. -/
def joinedText (encoding : Encoding) : List Char :=
  (pieces encoding.tokens).flatMap Piece.written

theorem lines_writtenLines {before : List (List Char × Bool)}
    (laid : ∀ raw ∈ before, Unbroken raw.1 ∧ Flush raw.1) {rest : List Char}
    (flush : Flush rest) :
    lines (unfold (writtenLines before ++ rest)) =
      before.map Prod.fst ++ lines (unfold rest) ∧ Flush (writtenLines before ++ rest) := by
  induction before with
  | nil => exact ⟨rfl, flush⟩
  | cons raw before inductionHypothesis =>
      rw [List.forall_mem_cons] at laid
      obtain ⟨read, behind⟩ := inductionHypothesis laid.2
      have shape : writtenLines (raw :: before) ++ rest =
          raw.1 ++ lineEnd raw.2 ++ (writtenLines before ++ rest) := by
        rw [writtenLines, List.flatMap_cons, List.append_assoc]
        rfl
      rw [shape, Content.lines_unfold laid.1.1 behind, read]
      refine ⟨rfl, ?_⟩
      rw [List.append_assoc]
      by_cases empty : raw.1 = []
      · rw [empty]
        exact Content.flush_lineEnd _ _
      · exact laid.1.2.append empty _

theorem unbroken_head (card : Card) : Unbroken (card.head ++ [':']) := by
  have colon : Unbroken [':'] := by decide
  exact unbroken_append card.unbroken colon

theorem ok_of_mem_merged {tokens : List Token}
    (plain : ∀ char, .literal char ∈ tokens → isPrintable char ∨ isBlank char) (piece : Piece)
    (member : some piece ∈ merged tokens) : piece.Ok :=
  ok_of_mem_pieces plain piece (List.mem_filterMap.mpr ⟨some piece, member, rfl⟩)

/-- The lines of a card: those in front, those of the value, those behind. -/
theorem lines_card (card : Card) (encoding : Encoding) :
    lines (unfold (card.text encoding)) = card.before.map Prod.fst ++
      (physical (card.head ++ [':']) (merged encoding.tokens) ++ lines (unfold card.after)) := by
  have flush : Flush (card.head ++ ':' :: (encoding.written ++
      (lineEnd card.crlf ++ card.after))) := by
    rw [List.append_cons]
    exact card.flush.append (by simp) _
  rw [Card.text, (lines_writtenLines card.laid flush).1, List.append_cons,
    Content.unfold_append (unbroken_head card), Encoding.written,
    unfold_tokens encoding.plain (Content.flush_lineEnd _ _),
    Content.unfold_lineEnd card.flushAfter,
    lines_physical (ok_of_mem_merged encoding.plain) (unbroken_head card)]

/-! ## The value that is read -/

/-- Cards are only ever counted. -/
theorem le_readLines_cards (depth cards : Nat) (later : List (List Char)) :
    cards ≤ (readLines depth cards later).1 := by
  fun_induction readLines depth cards later with
  | case1 => exact le_rfl
  | case4 depth cards next later raw blank cl parsed name named begins inductionHypothesis =>
      refine le_trans ?_ inductionHypothesis
      split_ifs <;> omega
  | _ => assumption

theorem trim_ne_nil_of_colon {line : List Char} (colon : ':' ∈ line) : trim line ≠ [] := by
  have solid : Outbox.isWhitespace ':' = false := by decide
  exact List.ne_nil_of_mem (Text.mem_strip colon solid)

/-- The first line of the value begins the property, and joining the others to
it gives its value. -/
theorem readLines_property (card : Card) (encoding : Encoding) (rest : List (List Char)) :
    ∃ property, property.value = decodeText (decodeQuotedPrintable
        (utf8 (joinSoft (joinedText encoding) rest).1)) ∧
      readLines 1 1 (physical (card.head ++ [':']) (merged encoding.tokens) ++ rest) =
        ((readLines 1 1 (joinSoft (joinedText encoding) rest).2).1,
          property :: (readLines 1 1 (joinSoft (joinedText encoding) rest).2).2) := by
  obtain ⟨first, more, shape⟩ :=
    List.exists_cons_of_ne_nil (physical_ne_nil [] (merged encoding.tokens))
  have ok := ok_of_mem_merged encoding.plain
  have solid := endsSolid_merged encoding.solid
  have headed : physical (card.head ++ [':']) (merged encoding.tokens) =
      (card.head ++ ':' :: first) :: more := by
    have moved := physical_append (card.head ++ [':']) [] (merged encoding.tokens)
    rw [List.append_nil, shape] at moved
    rw [moved]
    simp
  have colon : Outbox.isWhitespace ':' = false := by decide
  have bare : ∀ line ∈ (card.head ++ ':' :: first) :: more, Bare line := by
    rw [← headed]
    exact bare_physical ok solid fun _ =>
      bare_append (bare_singleton colon) (List.cons_ne_nil _ _) card.head
  rw [List.forall_mem_cons] at bare
  have joined : joinSoft first (more ++ rest) = joinSoft (joinedText encoding) rest :=
    joinSoft_physical shape bare.2 rest
  have blank : trim (card.head ++ ':' :: first) ≠ [] := trim_ne_nil_of_colon (by simp)
  have quoted : isQuotedPrintable { card.line with value := first } := card.quotedPrintable
  rw [headed, List.cons_append, readLines]
  simp only [trimEnd_of_bare bare.1, if_neg blank,
    parseContentLine_value card.parsed card.valueless first, if_pos quoted, joined,
    if_neg fun begins : propertyName card.line.name = "BEGIN".toList ∧ _ =>
      card.isProperty.1 begins.1,
    if_neg fun ends : propertyName card.line.name = "END".toList ∧ _ =>
      card.isProperty.2 ends.1]
  exact ⟨_, rfl, rfl⟩

/-- The value of the property is the joined text, decoded. -/
theorem readsBack_iff_value {card : Card} {encoding : Encoding}
    (short : byteLen (card.text encoding) ≤ MAX_VCARD_BYTES) (text : List Char) :
    ReadsBack card encoding text ↔ decodeText (decodeQuotedPrintable
      (utf8 (joinSoft (joinedText encoding) (lines (unfold card.after))).1)) = text := by
  obtain ⟨property, value, read⟩ :=
    readLines_property card encoding (lines (unfold card.after))
  generalize readLines 1 1 (joinSoft (joinedText encoding) (lines (unfold card.after))).2 = behind
    at read
  have counted : behind.1 ≠ 0 := by
    have most := le_readLines_cards 1 1 (physical (card.head ++ [':']) (merged encoding.tokens) ++
      lines (unfold card.after))
    rw [read] at most
    exact Nat.one_le_iff_ne_zero.mp most
  have parsed : parseVcard (card.text encoding) =
      some (card.read ++ property :: behind.2, behind.1 - 1) := by
    rw [parseVcard, if_neg (by omega), lines_card, card.opened, read]
    exact if_neg counted
  have here : (card.read ++ property :: behind.2)[card.read.length]? = some property := by simp
  rw [← value]
  constructor
  · rintro ⟨properties, more, other, same, at_, isText⟩
    rw [parsed] at same
    obtain ⟨rfl, -⟩ := Prod.mk.inj (Option.some.inj same)
    rw [here] at at_
    rw [Option.some.inj at_, isText]
  · intro isText
    exact ⟨_, _, property, parsed, here, isText⟩

theorem joinSoft_of_last {joined : List Char} (last : joined.getLast? ≠ some '=')
    (rest : List (List Char)) : joinSoft joined rest = (joined, rest) := by
  cases rest with
  | nil => rfl
  | cons next rest => rw [joinSoft, if_neg last]

theorem escape_getLast (byte : UInt8) (upperHigh upperLow : Bool) :
    (escape byte upperHigh upperLow).getLast? ≠ some '=' := by
  have all : ∀ byte : UInt8, ∀ upperHigh upperLow : Bool,
      (escape byte upperHigh upperLow).getLast? ≠ some '=' := forall_byte _ (by decide +kernel)
  exact all byte upperHigh upperLow

/-- The joined text ends in `=` only behind a stray one. -/
theorem stray_of_last {all : List Piece} (ok : ∀ piece ∈ all, piece.Ok)
    (last : (all.flatMap Piece.written).getLast? = some '=') :
    ∃ front blank, all = front ++ [.stray blank] := by
  rcases List.eq_nil_or_concat all with rfl | ⟨front, piece, rfl⟩
  · cases last
  · rw [List.concat_eq_append] at ok last ⊢
    have here := ok piece (by simp)
    rw [List.flatMap_append, List.flatMap_singleton] at last
    cases piece with
    | literal char =>
        rw [Piece.written, List.getLast?_concat] at last
        exact absurd (Option.some.inj last) (toNat_of_literal here).2
    | escaped byte upperHigh upperLow =>
        have nonempty : escape byte upperHigh upperLow ≠ [] := List.cons_ne_nil _ _
        rw [Piece.written, List.getLast?_append_of_ne_nil _ nonempty] at last
        exact absurd last (escape_getLast byte upperHigh upperLow)
    | stray blank => exact ⟨front, blank, rfl⟩

section Encoded

variable {encoding : Encoding} {text : List Char}

/-- Without a blank behind a soft line break every card has the text read. -/
theorem readsBack_of_flush (encodes : encoding.bytes = utf8 text)
    (flush : ¬BlankBehindSoft encoding.tokens) {card : Card}
    (short : byteLen (card.text encoding) ≤ MAX_VCARD_BYTES) : ReadsBack card encoding text := by
  have ok := ok_of_mem_pieces encoding.plain
  have none_ : ∀ piece ∈ pieces encoding.tokens, piece.isStray = false := by
    intro piece member
    by_contra stray
    exact flush ((exists_stray_iff _).mp ⟨piece, member, by simpa using stray⟩)
  have last : (joinedText encoding).getLast? ≠ some '=' := by
    intro ends
    obtain ⟨front, blank, shape⟩ := stray_of_last ok ends
    have stray := none_ (.stray blank) (by simp [shape])
    cases stray
  rw [readsBack_iff_value short, joinSoft_of_last last, joinedText, utf8_flatMap_written ok,
    decode_pieces ok none_, map_byte_pieces]
  change decodeText encoding.bytes = text
  rw [encodes, decodeText_utf8]

end Encoded

/-! ## A card that the blank is lost in -/

theorem decode_plain {bytes : List UInt8} (plain : EQUALS ∉ bytes) :
    decodeQuotedPrintable bytes = bytes := by
  induction bytes with
  | nil => rfl
  | cons byte bytes inductionHypothesis =>
      rw [List.mem_cons, not_or] at plain
      rw [decode_ne (Ne.symm plain.1), inductionHypothesis plain.2]

theorem getLast?_cons_of_some {byte : UInt8} {bytes : List UInt8} {last : UInt8}
    (ends : bytes.getLast? = some last) : (byte :: bytes).getLast? = some last := by
  rw [List.getLast?_cons, ends]
  rfl

/-- A line without `=` ends the decoded bytes as it ends the others. -/
theorem decode_getLast {last : UInt8} {tail : List UInt8} (long : 3 ≤ tail.length)
    (plain : EQUALS ∉ tail) (ends : tail.getLast? = some last) (count : Nat)
    {front : List UInt8} (short : front.length ≤ count) :
    (decodeQuotedPrintable (front ++ tail)).getLast? = some last := by
  have dropped : ∀ taken < tail.length,
      (decodeQuotedPrintable (tail.drop taken)).getLast? = some last := by
    intro taken less
    rw [decode_plain fun member => plain (List.mem_of_mem_drop member), List.getLast?_drop,
      if_neg (by omega), ends]
  induction count generalizing front with
  | zero =>
      rw [List.length_eq_zero_iff.mp (Nat.le_zero.mp short), List.nil_append]
      exact dropped 0 (by omega)
  | succ count inductionHypothesis =>
      cases front with
      | nil => exact dropped 0 (by omega)
      | cons byte front =>
          rw [List.length_cons] at short
          have behind := inductionHypothesis (Nat.le_of_succ_le_succ short)
          rw [List.cons_append]
          by_cases equals : byte = EQUALS
          · subst equals
            by_cases swallows : ∃ high low rest value,
                front ++ tail = high :: low :: rest ∧ fromHex high low = some value
            · obtain ⟨high, low, rest, value, begins, read⟩ := swallows
              rw [begins, decode_escape read]
              refine getLast?_cons_of_some ?_
              have same : rest = (front ++ tail).drop 2 := by rw [begins]; rfl
              rw [same]
              match front with
              | [] => exact dropped 2 (by omega)
              | [_] => exact dropped 1 (by omega)
              | _ :: _ :: front =>
                  simp only [List.length_cons] at short
                  exact inductionHypothesis (by omega)
            · rw [decode_stray]
              · exact getLast?_cons_of_some behind
              · intro high low rest begins
                by_contra read
                obtain ⟨value, read⟩ := Option.ne_none_iff_exists'.mp read
                exact swallows ⟨high, low, rest, value, begins, read⟩
          · rw [decode_ne equals]
            exact getLast?_cons_of_some behind

/-- Bytes that end in a letter are not read as a text that ends in another. -/
theorem decodeText_ne_of_last {bytes : List UInt8} {text : List Char}
    (ends : bytes.getLast? = some (asciiByte 'D'))
    (other : (utf8 text).getLast? ≠ some (asciiByte 'D')) : decodeText bytes ≠ text := by
  intro same
  rcases decodeText_cases bytes with own | ⟨latin, -⟩
  · rw [same] at own
    rw [own] at other
    exact other ends
  · obtain ⟨front, rfl⟩ := List.getLast?_eq_some_iff.mp ends
    have single : utf8 [latin1 (asciiByte 'D')] = [asciiByte 'D'] := by decide
    rw [← same, latin, List.map_append, utf8_append] at other
    change (utf8 (front.map latin1) ++ utf8 [latin1 (asciiByte 'D')]).getLast? ≠ _ at other
    rw [single, List.getLast?_concat] at other
    exact other rfl

/-- The smallest card around a value. -/
def smallest : Card where
  before := [("BEGIN:VCARD".toList, true)]
  head := "FN;ENCODING=QUOTED-PRINTABLE".toList
  crlf := true
  after := "END:VCARD\r\n".toList
  line := ⟨"FN".toList, [("ENCODING".toList, "QUOTED-PRINTABLE".toList)], []⟩
  read := []
  laid := by
    intro raw member
    rw [List.mem_singleton.mp member]
    exact ⟨by decide, flush_cons.mpr (by decide)⟩
  opened := by
    intro later
    have bare : trimEnd "BEGIN:VCARD".toList = "BEGIN:VCARD".toList := by decide
    have solid : trim "BEGIN:VCARD".toList ≠ [] := by decide
    have parsed : parseContentLine "BEGIN:VCARD".toList =
        some ⟨"BEGIN".toList, [], "VCARD".toList⟩ := by decide
    have begins : propertyName "BEGIN".toList = "BEGIN".toList ∧
        Text.asciiLower (trim "VCARD".toList) = "vcard".toList := by decide
    change readLines 0 0 ("BEGIN:VCARD".toList :: later) = _
    rw [readLines]
    simp only [bare, if_neg solid, parsed, if_pos begins]
    rfl
  unbroken := by decide
  flush := flush_cons.mpr (by decide)
  parsed := by decide
  valueless := rfl
  quotedPrintable := by decide
  isProperty := by decide
  flushAfter := flush_cons.mpr (by decide)

section Encoded

variable {encoding : Encoding} {text : List Char}

/-- With a blank behind a soft line break the smallest card has another text
read. -/
theorem not_readsBack_smallest (encodes : encoding.bytes = utf8 text)
    (lost : BlankBehindSoft encoding.tokens)
    (short : byteLen (smallest.text encoding) ≤ MAX_VCARD_BYTES) :
    ¬ReadsBack smallest encoding text := by
  have ok := ok_of_mem_pieces encoding.plain
  have bytes : (pieces encoding.tokens).map Piece.byte = utf8 text := by
    rw [map_byte_pieces]
    exact encodes
  have behind : lines (unfold smallest.after) = ["END:VCARD".toList] := by decide
  rw [readsBack_iff_value short, behind]
  by_cases last : (joinedText encoding).getLast? = some '='
  · obtain ⟨front, blank, shape⟩ := stray_of_last ok last
    have joined : joinSoft (joinedText encoding) ["END:VCARD".toList] =
        (front.flatMap Piece.written ++ "END:VCARD".toList, []) := by
      have bare : trimEnd "END:VCARD".toList = "END:VCARD".toList := by decide
      have written : joinedText encoding = front.flatMap Piece.written ++ ['='] := by
        rw [joinedText, shape, List.flatMap_append]
        rfl
      rw [joinSoft, if_pos last, bare, written, List.dropLast_concat, joinSoft]
    have tail : (utf8 "END:VCARD".toList).getLast? = some (asciiByte 'D') := by decide
    rw [joined, utf8_append]
    refine decodeText_ne_of_last
      (decode_getLast (by decide) (by decide) tail _ le_rfl) ?_
    have isBlank_ : isBlank blank := ok (.stray blank) (by simp [shape])
    rw [← bytes, shape, List.map_append, List.map_singleton, List.getLast?_concat]
    rcases Content.eq_of_isBlank isBlank_ with rfl | rfl <;> decide
  · rw [joinSoft_of_last last, joinedText, utf8_flatMap_written ok]
    exact decoded_ne ok ((exists_stray_iff _).mpr lost) bytes

/-- An encoding is read as its text in every card exactly where no soft line
break stands in front of a line that begins with a space or a tab. -/
theorem readsBack_iff (encodes : encoding.bytes = utf8 text)
    (fits : byteLen (smallest.text encoding) ≤ MAX_VCARD_BYTES) :
    (∀ card : Card, byteLen (card.text encoding) ≤ MAX_VCARD_BYTES →
      ReadsBack card encoding text) ↔ ¬BlankBehindSoft encoding.tokens := by
  constructor
  · intro reads lost
    exact not_readsBack_smallest encodes lost fits (reads smallest fits)
  · intro flush card short
    exact readsBack_of_flush encodes flush short

end Encoded

namespace Sample

/-- `caf=C3=` and `=A9 x`, a character cut by a soft line break. -/
def cut : Encoding where
  tokens := [.literal 'c', .literal 'a', .literal 'f', .escaped 0xC3 true true, .soft true,
    .escaped 0xA9 true true, .literal ' ', .literal 'x']
  plain := by
    intro char member
    simp only [List.mem_cons, Token.literal.injEq, reduceCtorEq, List.not_mem_nil, or_false,
      false_or] at member
    rcases member with rfl | rfl | rfl | rfl | rfl <;> decide
  solid := by
    intro char last
    cases last
    decide

/-- `ab=` and ` cd`. -/
def indented : Encoding where
  tokens := [.literal 'a', .literal 'b', .soft true, .literal ' ', .literal 'c', .literal 'd']
  plain := by
    intro char member
    simp only [List.mem_cons, Token.literal.injEq, reduceCtorEq, List.not_mem_nil, or_false,
      false_or] at member
    rcases member with rfl | rfl | rfl | rfl | rfl <;> decide
  solid := by
    intro char last
    cases last
    decide

theorem encodes_cut : cut.bytes = utf8 "café x".toList := by decide

theorem short_cut : byteLen (smallest.text cut) ≤ MAX_VCARD_BYTES := by decide

theorem not_blankBehindSoft_cut : ¬BlankBehindSoft cut.tokens := by
  rw [← exists_stray_iff]
  have none_ : ∀ piece ∈ pieces cut.tokens, piece.isStray = false := by decide
  rintro ⟨piece, member, stray⟩
  rw [none_ piece member] at stray
  cases stray

/-- The card that has the name encoded so shows it. -/
theorem cut_readsBack : ReadsBack smallest cut "café x".toList :=
  (readsBack_iff encodes_cut short_cut).mpr not_blankBehindSoft_cut smallest short_cut

/-- The text `ab cd`, its blank at the start of a line, is read as another. -/
theorem indented_not_readsBack : indented.bytes = utf8 "ab cd".toList ∧
    byteLen (smallest.text indented) ≤ MAX_VCARD_BYTES ∧
    ¬ReadsBack smallest indented "ab cd".toList := by
  have short : byteLen (smallest.text indented) ≤ MAX_VCARD_BYTES := by decide
  refine ⟨by decide, short, not_readsBack_smallest (by decide) ?_ short⟩
  exact ⟨[.literal 'a', .literal 'b'], true, ' ', [.literal 'c', .literal 'd'], rfl, rfl⟩

end Sample

end Vcard
end Mailcore

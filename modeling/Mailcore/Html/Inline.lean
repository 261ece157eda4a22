import Mailcore.Html.Tags
import Mailcore.Imap.Utf7

/-!
# Inline images

The composer holds an inserted image as a `data:` URI.  Before a send these
images become parts of their own, and each `src` names its part by Content-ID.
-/

namespace Mailcore
namespace Html

open Imap.Utf7 (letter)
open Data (bits chunks)
open Text (asciiLower splitOnceAt)

/-! ## Base64 -/

/-- The four characters of one to three bytes. -/
def encodeChunk (chunk : List UInt8) : List Char :=
  let n :=
    match chunk.map UInt8.toNat with
    | [first, second, third] => first <<< 16 ||| second <<< 8 ||| third
    | [first, second] => first <<< 16 ||| second <<< 8
    | [first] => first <<< 16
    | _ => 0
  [letter (n >>> 18 &&& 63), letter (n >>> 12 &&& 63),
    if 1 < chunk.length then letter (n >>> 6 &&& 63) else '=',
    if 2 < chunk.length then letter (n &&& 63) else '=']

/-- Standard base64 (RFC 4648, padded). -/
def base64Encode (bytes : List UInt8) : List Char :=
  (chunks 3 bytes).flatMap encodeChunk

/-- The value of a letter of either alphabet. -/
def sextet (char : Char) : Option Nat :=
  if 'A' ≤ char ∧ char ≤ 'Z' then some (char.toNat - 'A'.toNat)
  else if 'a' ≤ char ∧ char ≤ 'z' then some (char.toNat - 'a'.toNat + 26)
  else if '0' ≤ char ∧ char ≤ '9' then some (char.toNat - '0'.toNat + 52)
  else if char = '+' ∨ char = '-' then some 62
  else if char = '/' ∨ char = '_' then some 63
  else none

/-- `is_ascii_whitespace`. -/
def isAsciiSpace (char : Char) : Bool :=
  char = ' ' || char = '\t' || char = '\n' || char = '\u000c' || char = '\r'

/-- The bytes of the letters up to the padding, with `width` bits left over from
the letters before. -/
def bytesFrom (acc width : Nat) : List Char → Option (List UInt8)
  | [] => some []
  | char :: rest =>
      if isAsciiSpace char then bytesFrom acc width rest
      else if char = '=' then some []
      else
        (sextet char).bind fun value =>
          let acc := acc <<< 6 ||| value
          let width := width + 6
          if 8 ≤ width then
            (bytesFrom (acc &&& (1 <<< (width - 8) - 1)) (width - 8) rest).map
              (UInt8.ofNat (acc >>> (width - 8)) :: ·)
          else bytesFrom acc width rest

/-- Decode standard base64, tolerating whitespace and missing padding. -/
def base64Decode (text : List Char) : Option (List UInt8) :=
  bytesFrom 0 0 text

/-- What counts of a base64 text: its letters up to the padding, those of the URL
alphabet as the standard ones. -/
def bareLetters (text : List Char) : List Char :=
  ((text.filter fun char => !isAsciiSpace char).takeWhile (· ≠ '=')).map fun char =>
    if char = '-' then '+' else if char = '_' then '/' else char

/-- The two encoders of the repository write the same. -/
theorem encodeChunk_eq {chunk : List UInt8} (nonempty : chunk ≠ []) (short : chunk.length ≤ 3) :
    encodeChunk chunk =
      (Imap.Utf7.sextets chunk).map letter ++ List.replicate (3 - chunk.length) '=' := by
  rcases chunk with _ | ⟨first, _ | ⟨second, _ | ⟨third, _ | ⟨fourth, rest⟩⟩⟩⟩
  · exact absurd rfl nonempty
  · simp [encodeChunk, Imap.Utf7.sextets, Imap.Utf7.gather, List.range, List.range.loop]
  · simp [encodeChunk, Imap.Utf7.sextets, Imap.Utf7.gather, List.range, List.range.loop]
  · simp [encodeChunk, Imap.Utf7.sextets, Imap.Utf7.gather, List.range, List.range.loop]
  · simp only [List.length_cons] at short
    omega

theorem base64Encode_eq (bytes : List UInt8) :
    base64Encode bytes = Imap.Utf7.base64Encode bytes := by
  induction bytes using Data.chunks_induction 3 (by omega) with
  | empty => rfl
  | short bytes nonempty short =>
      unfold base64Encode Imap.Utf7.base64Encode
      rw [Data.chunks_short nonempty short.le]
      simp [encodeChunk_eq nonempty short.le]
  | full piece rest full inductionHypothesis =>
      have nonempty : piece ≠ [] := by
        rintro rfl
        simp at full
      unfold base64Encode Imap.Utf7.base64Encode at inductionHypothesis ⊢
      rw [Data.chunks_append full (by omega), List.flatMap_cons, List.flatMap_cons,
        inductionHypothesis, encodeChunk_eq nonempty full.le]

/-- A letter of either alphabet. -/
theorem sextet_of_letter {value : Nat} (small : value < 64) {char : Char}
    (spelled : (if char = '-' then '+' else if char = '_' then '/' else char) = letter value) :
    sextet char = some value ∧ isAsciiSpace char = false ∧ char ≠ '=' := by
  have plain : ∀ value < 64, sextet (letter value) = some value ∧
      isAsciiSpace (letter value) = false ∧ letter value ≠ '=' := by
    decide
  split_ifs at spelled with minus underscore
  · have same := (plain value small).1
    rw [← spelled] at same
    rw [minus, ← same]
    decide
  · have same := (plain value small).1
    rw [← spelled] at same
    rw [underscore, ← same]
    decide
  · rw [spelled]
    exact plain value small

theorem bareLetters_cons {char : Char} (space : isAsciiSpace char = false) (text : List Char) :
    bareLetters (char :: text) =
      if char = '=' then []
      else (if char = '-' then '+' else if char = '_' then '/' else char) ::
        bareLetters text := by
  unfold bareLetters
  rw [List.filter_cons_of_pos (by rw [space]; rfl), List.takeWhile_cons]
  split_ifs <;> simp_all

/-- The high eight bits of a number as a byte, and the bits behind them. -/
theorem bits_byte_rest {low number : Nat} (below : number < 2 ^ (8 + low)) :
    bits (8 + low) number =
      bits 8 (UInt8.ofNat (number >>> low)).toNat ++ bits low (number &&& (1 <<< low - 1)) := by
  have mask : 1 <<< low - 1 = 2 ^ low - 1 := by rw [Nat.shiftLeft_eq, Nat.one_mul]
  have high : number / 2 ^ low < 2 ^ 8 := by
    apply Nat.div_lt_of_lt_mul
    rwa [← Nat.pow_add, Nat.add_comm]
  have byte : (UInt8.ofNat (number / 2 ^ low)).toNat = number / 2 ^ low :=
    Nat.mod_eq_of_lt high
  rw [mask, Nat.and_two_pow_sub_one_eq_mod, Nat.shiftRight_eq_div_pow, byte, Data.bits_mod,
    Data.bits_add]

/-- The bits left over and those of the letters are the bits of the bytes, but for
fewer than eight at the end. -/
theorem bits_bytesFrom {acc width : Nat} (bound : acc < 2 ^ width) (few : width < 8)
    {values : List Nat} (small : ∀ value ∈ values, value < 64) {text : List Char}
    (spelled : bareLetters text = values.map letter) :
    ∃ bytes left, bytesFrom acc width text = some bytes ∧
      bits width acc ++ values.flatMap (bits 6) =
        (bytes.map UInt8.toNat).flatMap (bits 8) ++ left ∧ left.length < 8 := by
  induction text generalizing acc width values with
  | nil =>
      obtain rfl : values = [] := by simpa [bareLetters] using spelled.symm
      exact ⟨[], bits width acc, rfl, by simp, by simpa using few⟩
  | cons char text inductionHypothesis =>
      rw [bytesFrom]
      cases space : isAsciiSpace char with
      | true =>
          have spelled : bareLetters text = values.map letter := by
            simpa [bareLetters, space] using spelled
          simpa using inductionHypothesis bound few small spelled
      | false =>
          rw [bareLetters_cons space] at spelled
          by_cases ends : char = '='
          · obtain rfl : values = [] := by simpa [ends] using spelled.symm
            exact ⟨[], bits width acc, by simp [ends], by simp, by simpa using few⟩
          · rw [if_neg ends] at spelled
            obtain ⟨value, values, rfl⟩ : ∃ value later, values = value :: later := by
              cases values with
              | nil => cases spelled
              | cons value values => exact ⟨value, values, rfl⟩
            obtain ⟨first, later⟩ := List.cons.inj spelled
            have fits : value < 2 ^ 6 := small value List.mem_cons_self
            have small : ∀ value ∈ values, value < 64 := fun value member =>
              small value (List.mem_cons_of_mem _ member)
            obtain ⟨found, -, -⟩ := sextet_of_letter fits first
            have joined : acc <<< 6 ||| value = acc * 2 ^ 6 + value := by
              rw [Nat.shiftLeft_eq, Imap.Utf7.shiftLeft_or fits]
            have carried := Data.bits_join width 6 acc value fits
            have below : acc * 2 ^ 6 + value < 2 ^ (width + 6) := by
              rw [Nat.pow_add]
              omega
            rw [found, Option.bind_some, joined, List.flatMap_cons, ← List.append_assoc,
              ← carried]
            simp only [Bool.false_eq_true, if_false, ends]
            split_ifs with full
            · obtain ⟨low, same⟩ : ∃ low, width + 6 = 8 + low := ⟨width - 2, by omega⟩
              rw [same] at below ⊢
              rw [Nat.add_sub_cancel_left]
              have masked : (acc * 2 ^ 6 + value) &&& (1 <<< low - 1) < 2 ^ low := by
                rw [Nat.shiftLeft_eq, Nat.one_mul, Nat.and_two_pow_sub_one_eq_mod]
                exact Nat.mod_lt _ (Nat.two_pow_pos low)
              obtain ⟨bytes, left, read, carries, fewer⟩ :=
                inductionHypothesis masked (by omega) small later
              refine ⟨_, left, by rw [read]; rfl, ?_, fewer⟩
              rw [bits_byte_rest below, List.append_assoc, carries, List.map_cons,
                List.flatMap_cons, List.append_assoc]
            · obtain ⟨bytes, left, read, carries, fewer⟩ :=
                inductionHypothesis below (by omega) small later
              exact ⟨bytes, left, read, carries, fewer⟩

theorem bareLetters_base64Encode (bytes : List UInt8) :
    bareLetters (base64Encode bytes) = (Imap.Utf7.values bytes).map letter := by
  have small : ∀ value ∈ Imap.Utf7.values bytes, value < 64 := fun _ =>
    Imap.Utf7.lt_of_mem_values
  obtain ⟨padding, same⟩ := Imap.Utf7.base64Encode_eq bytes
  rw [base64Encode_eq, same]
  generalize Imap.Utf7.values bytes = values at small
  induction values with
  | nil => cases padding <;> rfl
  | cons value values inductionHypothesis =>
      have plain : ∀ value < 64, isAsciiSpace (letter value) = false ∧ letter value ≠ '=' ∧
          letter value ≠ '-' ∧ letter value ≠ '_' := by
        decide
      obtain ⟨space, padded, minus, underscore⟩ := plain value (small value List.mem_cons_self)
      rw [List.map_cons, List.cons_append, bareLetters_cons space, if_neg padded,
        if_neg minus, if_neg underscore,
        inductionHypothesis fun other member => small other (List.mem_cons_of_mem _ member)]

/-- Whatever white space stands in the encoding of some bytes, whichever alphabet
it uses and whether or not it is padded, the bytes are read back. -/
theorem base64Decode_encode {bytes : List UInt8} {text : List Char}
    (spelled : bareLetters text = bareLetters (base64Encode bytes)) :
    base64Decode text = some bytes := by
  have small : ∀ value ∈ Imap.Utf7.values bytes, value < 64 := fun _ =>
    Imap.Utf7.lt_of_mem_values
  rw [bareLetters_base64Encode] at spelled
  obtain ⟨read, left, found, carries, few⟩ :=
    @bits_bytesFrom 0 0 (by decide) (by decide) _ small text spelled
  obtain ⟨padding, fewer, same⟩ := Imap.Utf7.bits_values bytes
  have carries : (bytes.map UInt8.toNat).flatMap (bits 8) ++ List.replicate padding false =
      (read.map UInt8.toNat).flatMap (bits 8) ++ left := same.symm.trans carries
  -- Fewer than eight bits are left on both sides, so there are as many bytes.
  have lengths := congrArg List.length carries
  simp only [List.length_append, Data.length_flatMap_bits, List.length_map,
    List.length_replicate] at lengths
  have count : bytes.length = read.length := by omega
  have bound (some : List UInt8) : ∀ value ∈ some.map UInt8.toNat, value < 2 ^ 8 := by
    intro value member
    obtain ⟨byte, -, rfl⟩ := List.mem_map.mp member
    exact byte.toNat_lt
  have equal := Data.flatMap_bits_inj 8 (bound bytes) (bound read) (by simpa using count)
    (List.append_inj carries (by
      rw [Data.length_flatMap_bits, Data.length_flatMap_bits, List.length_map, List.length_map,
        count])).1
  rw [base64Decode, found,
    List.map_injective_iff.mpr (fun _ _ => UInt8.toNat_inj.mp) equal]

/-- Unpadded, in the other alphabet and broken into two lines. -/
theorem base64Decode_encode_sample :
    bareLetters "-_\r\n8".toList = bareLetters (base64Encode [251, 255]) ∧
      base64Decode "-_\r\n8".toList = some [251, 255] :=
  ⟨by decide, base64Decode_encode (by decide)⟩

/-! ## Data URIs -/

/-- Image types a reader may embed. -/
def isInlineImageMime (mime : List Char) : Bool :=
  isOneOf ["image/png", "image/jpeg", "image/jpg", "image/gif", "image/webp"]
    (asciiLower (trim mime))

/-- An attachment's largest size, and the most attachments of a message. -/
def MAX_SEND_ATTACHMENT_BYTES : Nat := 25 * 1024 * 1024

def MAX_SEND_ATTACHMENT_COUNT : Nat := 20

/-- The type and the bytes of a base64 `data:image/…` URI, none for a type that is not
sent inline. -/
def decodeDataImage (value : List Char) : Except String (Option (List Char × List UInt8)) :=
  let v := trim value
  if asciiLower (v.take 5) = "data:".toList then
    match splitOnceAt [','] (v.drop 5) with
    | none => .ok none
    | some (fields, payload) =>
        let parts := fields.splitOn ';'
        let mime := asciiLower (trim (parts.headD []))
        if (parts.tail.any fun field => asciiLower (trim field) = "base64".toList) &&
            isInlineImageMime mime then
          match base64Decode payload with
          | none => .error "an inline image could not be read"
          | some bytes =>
              if MAX_SEND_ATTACHMENT_BYTES < bytes.length then
                .error "an inline image is larger than the attachment limit"
              else .ok (some (mime, bytes))
        else .ok none
  else .ok none

/-! ## Images in a body -/

/-- One image to send as an inline part. -/
structure InlinePart where
  cid : List Char
  mime : List Char
  bytes : List UInt8
  deriving DecidableEq, Repr

/-- The text cut in front of its first `<img`. -/
def findImg : List Char → Option (List Char × List Char)
  | [] => none
  | char :: rest =>
      if startsWith (asciiLower (char :: rest)) "<img" then some ([], char :: rest)
      else (findImg rest).map fun cut => (char :: cut.1, cut.2)

/-- The value at the front of a text behind `src=`, with what stands in front of it
and behind it, when it is a `data:image/` URI. -/
def srcValue (text : List Char) : Option (List Char × List Char × List Char) :=
  let blank := text.takeWhile Outbox.isWhitespace
  let cut : Option (List Char × List Char × List Char) :=
    match text.dropWhile Outbox.isWhitespace with
    | [] => none
    | q :: rest =>
        if q = '"' ∨ q = '\'' then
          if q ∈ rest then
            some (blank ++ [q], rest.takeWhile (· != q), rest.dropWhile (· != q))
          else none
        else
          let inside := fun char => !(isAsciiSpace char || char = '>' || char = '/')
          some (blank, (q :: rest).takeWhile inside, (q :: rest).dropWhile inside)
  cut.filter fun cut =>
    startsWith ((asciiLower cut.2.1).dropWhile Outbox.isWhitespace) "data:image/"

/-- The `src` value of an `<img …>` tag when it is a `data:image/` URI.  Only the first
`src` that is a whole attribute name counts; nothing begins inside the word, so the
search goes on behind its first letter. -/
def dataSrc (before : Option Char) :
    List Char → Option (List Char × List Char × List Char)
  | [] => none
  | char :: rest =>
      let further := (dataSrc (some char) rest).map fun cut => (char :: cut.1, cut.2)
      if startsWith (asciiLower (char :: rest)) "src" && before.any isAsciiSpace then
        let behind := rest.drop 2
        match behind.dropWhile Outbox.isWhitespace with
        | '=' :: text =>
            (srcValue text).map fun cut =>
              (char :: rest.take 2 ++ behind.takeWhile Outbox.isWhitespace ++ '=' :: cut.1,
                cut.2)
        | _ => further
      else further

variable (fresh : Nat → List Char) (domain : List Char)

/-- The part of an image: one that is there already, or a new one. -/
def partOf (mime : List Char) (bytes : List UInt8) (parts : List InlinePart) :
    Except String (List Char × List InlinePart) :=
  match parts.find? fun part => part.bytes = bytes with
  | some part => .ok (part.cid, parts)
  | none =>
      if MAX_SEND_ATTACHMENT_COUNT ≤ parts.length then
        .error "too many inline images (max 20)"
      else
        let cid := fresh parts.length ++ '@' :: domain
        .ok (cid, parts ++ [⟨cid, mime, bytes⟩])

/-- A tag with the image of its `src` taken out. -/
def takeImage (tag : List Char) (parts : List InlinePart) :
    Except String (List Char × List InlinePart) :=
  match dataSrc none tag with
  | none => .ok (tag, parts)
  | some (front, value, back) => do
      match ← decodeDataImage value with
      | none => .ok (tag, parts)
      | some (mime, bytes) => do
          let (cid, parts) ← partOf fresh domain mime bytes parts
          .ok (front ++ "cid:".toList ++ cid ++ back, parts)

/-- The loop of `extract_data_images`.  A tag that does not end ends it, when what
stands in front of the tag is written already, and the text is written from there on
once more. -/
def extractFrom : Nat → List Char → List InlinePart → Except String (List Char × List InlinePart)
  | 0, rest, parts => .ok (rest, parts)
  | fuel + 1, rest, parts =>
      match findImg rest with
      | none => .ok (rest, parts)
      | some (front, img) =>
          match findTagEnd none img with
          | none => .ok (front ++ rest, parts)
          | some (inner, behind) => do
              let (tag, parts) ← takeImage fresh domain (inner ++ ['>']) parts
              let (out, parts) ← extractFrom fuel behind parts
              .ok (front ++ tag ++ out, parts)

/-- `extract_data_images`. -/
def extractDataImages (html : List Char) : Except String (List Char × List InlinePart) :=
  if containsText html "data:image/" then
    extractFrom fresh domain (html.length + 1) html []
  else .ok (html, [])

/-! ## What an extraction does to a body -/

/-- The image of a tag, as it stands in its `src`. -/
def imageOf (tag : List Char) : Option (List Char) :=
  ((dataSrc none tag).map fun cut => cut.2.1).filter fun value =>
    match decodeDataImage value with
    | .ok (some _) => true
    | _ => false

def imagesFrom : Nat → List Char → List (List Char)
  | 0, _ => []
  | fuel + 1, rest =>
      match findImg rest with
      | none => []
      | some (_, img) =>
          match findTagEnd none img with
          | none => []
          | some (inner, behind) =>
              (imageOf (inner ++ ['>'])).toList ++ imagesFrom fuel behind

/-- The images of a body, in order. -/
def dataImages (html : List Char) : List (List Char) :=
  imagesFrom (html.length + 1) html

/-- An image of a body with the text in front of it, and the Content-ID it is sent
under. -/
structure Reference where
  text : List Char
  value : List Char
  cid : List Char

/-- The body as it was. -/
def typed (pieces : List Reference) : List Char :=
  pieces.flatMap fun piece => piece.text ++ piece.value

/-- The body as it is sent. -/
def sent (pieces : List Reference) : List Char :=
  pieces.flatMap fun piece => piece.text ++ "cid:".toList ++ piece.cid

/-- The Content-ID names a part with the bytes of the image. -/
def Refers (parts : List InlinePart) (piece : Reference) : Prop :=
  ∃ part ∈ parts, part.cid = piece.cid ∧
    ∃ mime, decodeDataImage piece.value = .ok (some (mime, part.bytes))

/-- An `<img` that does not end. -/
def Unfinished (text : List Char) : Prop :=
  startsWith (asciiLower text) "<img" ∧ findTagEnd none text = none

/-- A body against what is sent of it.  Only the text in front of a tag that does not end
is there twice. -/
structure Extracted (parts : List InlinePart) (html out : List Char)
    (pieces : List Reference) : Prop where
  body : ∃ last twice broken,
    html = typed pieces ++ (last ++ (twice ++ broken)) ∧
      out = sent pieces ++ (last ++ (twice ++ (twice ++ broken))) ∧
      (twice = [] ∨ Unfinished broken)
  refers : ∀ piece ∈ pieces, Refers parts piece

/-- The parts are numbered as they were found, each with bytes of its own. -/
structure Numbered (parts : List InlinePart) : Prop where
  cids : parts.map InlinePart.cid =
    (List.range parts.length).map fun number => fresh number ++ '@' :: domain
  distinct : (parts.map InlinePart.bytes).Nodup
  few : parts.length ≤ MAX_SEND_ATTACHMENT_COUNT

theorem Extracted.prepend {parts : List InlinePart} {html out : List Char}
    {pieces : List Reference} (extracted : Extracted parts html out pieces)
    (text : List Char) :
    ∃ others, Extracted parts (text ++ html) (text ++ out) others ∧
      others.map Reference.value = pieces.map Reference.value ∧
      others.map Reference.cid = pieces.map Reference.cid := by
  obtain ⟨⟨last, twice, broken, rfl, rfl, only⟩, refers⟩ := extracted
  cases pieces with
  | nil =>
      exact ⟨[], ⟨⟨text ++ last, twice, broken, by simp [typed], by simp [sent], only⟩,
        by simp⟩, rfl, rfl⟩
  | cons piece pieces =>
      refine ⟨{ piece with text := text ++ piece.text } :: pieces,
        ⟨⟨last, twice, broken, by simp [typed], by simp [sent], only⟩, ?_⟩, rfl, rfl⟩
      intro other member
      rcases List.mem_cons.mp member with rfl | later
      · exact refers piece List.mem_cons_self
      · exact refers other (List.mem_cons_of_mem _ later)

/-- One more image in front. -/
theorem Extracted.cons {parts : List InlinePart} {html out : List Char}
    {pieces : List Reference} (extracted : Extracted parts html out pieces)
    {piece : Reference} (refers : Refers parts piece) :
    Extracted parts (piece.text ++ piece.value ++ html)
      (piece.text ++ "cid:".toList ++ piece.cid ++ out) (piece :: pieces) := by
  obtain ⟨⟨last, twice, broken, rfl, rfl, only⟩, earlier⟩ := extracted
  refine ⟨⟨last, twice, broken, by simp [typed], by simp [sent], only⟩, ?_⟩
  intro other member
  rcases List.mem_cons.mp member with rfl | later
  · exact refers
  · exact earlier other later

theorem findImg_append {text front img : List Char} (found : findImg text = some (front, img)) :
    text = front ++ img ∧ startsWith (asciiLower img) "<img" := by
  induction text generalizing front with
  | nil => cases found
  | cons char text inductionHypothesis =>
      rw [findImg] at found
      split_ifs at found with begins
      · obtain ⟨rfl, rfl⟩ := Prod.mk.inj (Option.some.inj found)
        exact ⟨rfl, begins⟩
      · obtain ⟨⟨before, behind⟩, within, same⟩ := Option.map_eq_some_iff.mp found
        obtain ⟨rfl, rfl⟩ := Prod.mk.inj same
        obtain ⟨rfl, starts⟩ := inductionHypothesis within
        exact ⟨rfl, starts⟩

theorem srcValue_append {text front value back : List Char}
    (found : srcValue text = some (front, value, back)) : text = front ++ (value ++ back) := by
  unfold srcValue at found
  obtain ⟨cut, -⟩ := Option.filter_eq_some_iff.mp found
  have whole := (List.takeWhile_append_dropWhile (p := Outbox.isWhitespace) (l := text)).symm
  dsimp only at cut
  split at cut
  · cases cut
  · next q rest behind =>
    rw [behind] at whole
    split_ifs at cut with quote closed
    · obtain ⟨rfl, rfl, rfl⟩ : _ ∧ _ ∧ _ := by simpa using cut
      rw [List.takeWhile_append_dropWhile]
      exact whole.trans (by simp)
    · obtain ⟨rfl, rfl, rfl⟩ : _ ∧ _ ∧ _ := by simpa using cut
      rw [List.takeWhile_append_dropWhile]
      exact whole

theorem dataSrc_append {before : Option Char} {tag front value back : List Char}
    (found : dataSrc before tag = some (front, value, back)) :
    tag = front ++ (value ++ back) := by
  induction tag generalizing before front with
  | nil => cases found
  | cons char rest inductionHypothesis =>
      have further (found : ((dataSrc (some char) rest).map fun cut =>
          (char :: cut.1, cut.2)) = some (front, value, back)) :
          char :: rest = front ++ (value ++ back) := by
        obtain ⟨⟨ahead, within⟩, later, same⟩ := Option.map_eq_some_iff.mp found
        obtain ⟨rfl, rfl⟩ := Prod.mk.inj same
        rw [List.cons_append, ← inductionHypothesis later]
      rw [dataSrc] at found
      dsimp only at found
      split at found
      · split at found
        · next text assigned =>
          obtain ⟨⟨ahead, within⟩, read, same⟩ := Option.map_eq_some_iff.mp found
          obtain ⟨rfl, rfl⟩ := Prod.mk.inj same
          have cut := srcValue_append read
          have whole := List.takeWhile_append_dropWhile (p := Outbox.isWhitespace)
            (l := rest.drop 2)
          rw [assigned, cut] at whole
          have all := List.take_append_drop 2 rest
          rw [← whole] at all
          simpa using all.symm
        · exact further found
      · exact further found

section Loop

variable {fresh : Nat → List Char} {domain : List Char} {parts after : List InlinePart}

theorem numbered_nil : Numbered fresh domain [] := ⟨rfl, List.nodup_nil, Nat.zero_le _⟩

theorem Refers.mono {piece : Reference} (refers : Refers parts piece) (more : parts ⊆ after) :
    Refers after piece := by
  obtain ⟨part, member, named⟩ := refers
  exact ⟨part, more member, named⟩

/-- The part that is looked up has the image's bytes, and is the only new one. -/
theorem partOf_spec {mime cid : List Char} {bytes : List UInt8}
    (numbered : Numbered fresh domain parts)
    (found : partOf fresh domain mime bytes parts = .ok (cid, after)) :
    Numbered fresh domain after ∧ parts ⊆ after ∧
      (∃ part ∈ after, part.cid = cid ∧ part.bytes = bytes) ∧
        ∀ part ∈ after, part ∈ parts ∨ part.cid = cid := by
  unfold partOf at found
  split at found
  · next part known =>
    obtain ⟨rfl, rfl⟩ := Prod.mk.inj (Except.ok.inj found)
    have same : part.bytes = bytes := by simpa using List.find?_some known
    exact ⟨numbered, List.Subset.refl _, ⟨part, List.mem_of_find?_eq_some known, rfl, same⟩,
      fun other member => .inl member⟩
  · next unknown =>
    split_ifs at found with full
    obtain ⟨rfl, rfl⟩ := Prod.mk.inj (Except.ok.inj found)
    have absent : bytes ∉ parts.map InlinePart.bytes := by
      rw [List.mem_map]
      rintro ⟨part, member, same⟩
      exact List.find?_eq_none.mp unknown part member (decide_eq_true same)
    refine ⟨⟨?_, ?_, ?_⟩, List.subset_append_left _ _,
      ⟨_, List.mem_append_right _ (List.mem_singleton_self _), rfl, rfl⟩, ?_⟩
    · rw [List.map_append, numbered.cids, List.length_append, List.length_singleton,
        List.range_succ, List.map_append]
      rfl
    · rw [List.map_append]
      exact numbered.distinct.append (List.nodup_singleton _)
        (List.disjoint_singleton.mpr absent)
    · rw [List.length_append, List.length_singleton]
      omega
    · intro part member
      rcases List.mem_append.mp member with old | new
      · exact .inl old
      · rw [List.mem_singleton.mp new]
        exact .inr rfl

/-- What one tag comes to: it is left as it is, or the image of its `src` is taken
out. -/
theorem takeImage_spec {tag out : List Char} (numbered : Numbered fresh domain parts)
    (found : takeImage fresh domain tag parts = .ok (out, after)) :
    Numbered fresh domain after ∧ parts ⊆ after ∧
      (imageOf tag = none ∧ out = tag ∧ after = parts ∨
        ∃ front value back cid, imageOf tag = some value ∧ tag = front ++ (value ++ back) ∧
          out = front ++ "cid:".toList ++ cid ++ back ∧ Refers after ⟨front, value, cid⟩ ∧
            ∀ part ∈ after, part ∈ parts ∨ part.cid = cid) := by
  unfold takeImage at found
  unfold imageOf
  split at found
  · next none_ =>
    obtain ⟨rfl, rfl⟩ := Prod.mk.inj (Except.ok.inj found)
    exact ⟨numbered, List.Subset.refl _, .inl ⟨by rw [none_]; rfl, rfl, rfl⟩⟩
  · next front value back cut =>
    cases read : decodeDataImage value with
    | error text =>
        rw [read] at found
        cases found
    | ok image =>
        rw [read] at found
        cases image with
        | none =>
            obtain ⟨rfl, rfl⟩ := Prod.mk.inj (Except.ok.inj found)
            refine ⟨numbered, List.Subset.refl _, .inl ⟨?_, rfl, rfl⟩⟩
            simp [cut, read]
        | some image =>
            obtain ⟨mime, bytes⟩ := image
            cases looked : partOf fresh domain mime bytes parts with
            | error text =>
                simp only [bind, Except.bind, looked] at found
                cases found
            | ok named =>
                obtain ⟨cid, reached⟩ := named
                simp only [bind, Except.bind, looked] at found
                obtain ⟨rfl, rfl⟩ := Prod.mk.inj (Except.ok.inj found)
                obtain ⟨still, more, ⟨part, member, rfl, rfl⟩, only⟩ :=
                  partOf_spec numbered looked
                refine ⟨still, more, .inr ⟨front, value, back, part.cid, ?_,
                  dataSrc_append cut, rfl, ⟨part, member, rfl, mime, read⟩, only⟩⟩
                simp [cut, read]

theorem extractFrom_spec {fuel : Nat} {html out : List Char}
    (enough : html.length < fuel) (numbered : Numbered fresh domain parts)
    (found : extractFrom fresh domain fuel html parts = .ok (out, after)) :
    Numbered fresh domain after ∧ parts ⊆ after ∧
      ∃ pieces, Extracted after html out pieces ∧
        pieces.map Reference.value = imagesFrom fuel html ∧
          ∀ part ∈ after, part ∈ parts ∨ part.cid ∈ pieces.map Reference.cid := by
  induction fuel generalizing html out parts with
  | zero => cases enough
  | succ fuel inductionHypothesis =>
      rw [extractFrom] at found
      rw [imagesFrom]
      cases cut : findImg html with
      | none =>
          rw [cut] at found
          obtain ⟨rfl, rfl⟩ := Prod.mk.inj (Except.ok.inj found)
          exact ⟨numbered, List.Subset.refl _, [],
            ⟨⟨html, [], [], by simp [typed], by simp [sent], .inl rfl⟩, by simp⟩, rfl,
            fun part member => .inl member⟩
      | some cut_ =>
          obtain ⟨front, img⟩ := cut_
          obtain ⟨rfl, begins⟩ := findImg_append cut
          rw [cut] at found
          dsimp only at found ⊢
          cases ends : findTagEnd none img with
          | none =>
              rw [ends] at found
              obtain ⟨rfl, rfl⟩ := Prod.mk.inj (Except.ok.inj found)
              exact ⟨numbered, List.Subset.refl _, [],
                ⟨⟨[], front, img, by simp [typed], by simp [sent], .inr ⟨begins, ends⟩⟩,
                  by simp⟩, rfl, fun part member => .inl member⟩
          | some tag =>
              obtain ⟨inner, behind⟩ := tag
              obtain rfl := findTagEnd_append ends
              rw [ends] at found
              dsimp only at found ⊢
              have shorter : behind.length < fuel := by
                simp only [List.length_append, List.length_cons] at enough
                omega
              cases took : takeImage fresh domain (inner ++ ['>']) parts with
              | error text =>
                  rw [took] at found
                  cases found
              | ok taken =>
                  obtain ⟨tag, reached⟩ := taken
                  rw [took] at found
                  cases loop : extractFrom fresh domain fuel behind reached with
                  | error text =>
                      simp only [bind, Except.bind, loop] at found
                      cases found
                  | ok read =>
                  obtain ⟨later, last⟩ := read
                  simp only [bind, Except.bind, loop] at found
                  obtain ⟨rfl, rfl⟩ := Prod.mk.inj (Except.ok.inj found)
                  obtain ⟨still, more, image⟩ := takeImage_spec numbered took
                  obtain ⟨end_, most, pieces, extracted, values, named⟩ :=
                    inductionHypothesis shorter still loop
                  refine ⟨end_, List.Subset.trans more most, ?_⟩
                  rcases image with ⟨plain, rfl, rfl⟩ | ⟨ahead, value, back, cid, holds, written,
                    rfl, refers, only⟩
                  · obtain ⟨others, whole, same, cids⟩ :=
                      extracted.prepend (front ++ (inner ++ ['>']))
                    refine ⟨others, by simpa using whole, ?_, ?_⟩
                    · rw [same, values, plain]
                      rfl
                    · rw [cids]
                      exact named
                  · obtain ⟨others, whole, same, cids⟩ := extracted.prepend back
                    have refers : Refers last ⟨front ++ ahead, value, cid⟩ := refers.mono most
                    refine ⟨⟨front ++ ahead, value, cid⟩ :: others, ?_, ?_, ?_⟩
                    · have body := whole.cons refers
                      have shape : front ++ (inner ++ '>' :: behind) =
                          front ++ ahead ++ value ++ (back ++ behind) := by
                        rw [List.append_cons, written]
                        simp
                      rw [shape]
                      simpa using body
                    · rw [List.map_cons, same, values, holds]
                      rfl
                    · intro part member
                      rw [List.map_cons, cids]
                      rcases named part member with before | later
                      · rcases only part before with old | new
                        · exact .inl old
                        · exact .inr (new ▸ List.mem_cons_self)
                      · exact .inr (List.mem_cons_of_mem _ later)

/-- An image of one byte, named by as many letters as there are parts. -/
theorem extractDataImages_sample :
    extractDataImages (fun number => List.replicate number 'x') "a".toList
        "<img src=\"data:image/png;base64,Zg\">".toList =
      .ok ("<img src=\"cid:@a\">".toList, [⟨"@a".toList, "image/png".toList, [102]⟩]) := by
  decide

end Loop

end Html
end Mailcore

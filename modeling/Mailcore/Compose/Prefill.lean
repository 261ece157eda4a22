import Mailcore.Compose.Answer
import Mailcore.Html.Browser
import Mailcore.Vcard.Encoded

/-!
# New mail from outside

A `mailto:` link or something shared into the app becomes a draft.  What a link says
arrives in the fields of the composer, every recipient once.
-/

namespace Mailcore
namespace Compose

open Data (once)
open Html
open Outbox (isWhitespace)
open Text (asciiLower afterLast beforeLast fromUtf8Lossy ToLowercase)
open Vcard (hexDigit)

/-- What the platform handed over. -/
structure PrefillRequest where
  mailto : List Char
  to_ : List (List Char)
  cc : List (List Char)
  bcc : List (List Char)
  subject : List Char
  text : List Char

/-- Recipients, subject and plain body. -/
structure Prefill where
  to_ : List (List Char)
  cc : List (List Char)
  bcc : List (List Char)
  subject : List Char
  body : List Char
  deriving DecidableEq

/-- The composer's starting point. -/
structure PrefillDraft where
  to_ : List Char
  cc : List Char
  bcc : List Char
  subject : List Char
  bodyHtml : List Char

namespace Prefill

/-! ## Parsing a link -/

/-- Comma-separated addresses. -/
def addresses (s : List Char) : List (List Char) :=
  entriesOf (s.splitOn ',')

/-- The address inside `Name <addr>`, or the whole text. -/
def bare (addr : List Char) : List Char :=
  if '<' ∈ addr ∧ '>' ∈ afterLast '<' addr then trim (beforeLast '>' (afterLast '<' addr))
  else trim addr

/-- A subject is one line. -/
def oneLine (s : List Char) : List Char :=
  [' '].intercalate ((s.splitOnP isWhitespace).filter (· ≠ []))

/-- Percent-decoding as UTF-8. -/
def decode (s : List Char) : List Char :=
  Browser.percentDecoded s

/-- `split_once`, with nothing behind a separator that is not there. -/
def splitOnce (separator : Char) (s : List Char) : List Char × List Char :=
  (s.takeWhile (· != separator), (s.dropWhile (· != separator)).drop 1)

/-- What a header field of a link sets, by its name in lower case. -/
def setField (found : Prefill × Option (List Char)) (name value : List Char) :
    Prefill × Option (List Char) :=
  let (out, body) := found
  if name = "to".toList then ({ out with to_ := out.to_ ++ addresses value }, body)
  else if name = "cc".toList then ({ out with cc := out.cc ++ addresses value }, body)
  else if name = "bcc".toList then ({ out with bcc := out.bcc ++ addresses value }, body)
  else if name = "subject".toList ∧ out.subject = [] then
    ({ out with subject := oneLine value }, body)
  else if name = "body".toList ∧ body = none then (out, some value)
  else (out, body)

/-- One header field of a link. -/
def fieldTurn (found : Prefill × Option (List Char)) (field : List Char) :
    Prefill × Option (List Char) :=
  let (name, value) := splitOnce '=' field
  setField found (asciiLower (decode name)) (decode value)

/-- Parse a `mailto:` URI. -/
def parseMailto (uri : List Char) : Option Prefill :=
  let uri := trim uri
  if ':' ∉ uri then none
  else
    let (scheme, rest) := splitOnce ':' uri
    if asciiLower scheme ≠ "mailto".toList then none
    else
      let rest := rest.takeWhile (· != '#')
      let (path, query) := splitOnce '?' rest
      let fields := (query.splitOn '&').filter (· ≠ [])
      let (out, body) := fields.foldl fieldTurn (⟨addresses (decode path), [], [], [], []⟩, none)
      some { out with body := withoutCrlf (body.getD []) }

/-! ## Merging -/

section Merge

variable (lower : ToLowercase isWhitespace)

def key (addr : List Char) : List Char :=
  lower.apply (bare addr)

/-- Addresses that were not seen, and what has been seen. -/
def unique : List (List Char) → List (List Char) → List (List Char) × List (List Char)
  | [], seen => ([], seen)
  | addr :: addrs, seen =>
      if seen.contains (key lower addr) then unique addrs seen
      else
        let (out, seen) := unique addrs (seen ++ [key lower addr])
        (addr :: out, seen)

/-- The body of the link, with shared text that says something else below it. -/
def mergedBody (link shared : List Char) : List Char :=
  let b := trim link
  let t := trim shared
  if b = [] then t
  else if t = [] then b
  else if b = t then b
  else b ++ "\n\n".toList ++ t

/-- Merge what the platform handed over. -/
def merge (req : PrefillRequest) : Prefill :=
  let link := (parseMailto req.mailto).getD ⟨[], [], [], [], []⟩
  let (to_, seen) := unique lower (link.to_ ++ req.to_.flatMap addresses) []
  let (cc, seen) := unique lower (link.cc ++ req.cc.flatMap addresses) seen
  let (bcc, _) := unique lower (link.bcc ++ req.bcc.flatMap addresses) seen
  ⟨to_, cc, bcc, if trim link.subject = [] then oneLine req.subject else link.subject,
    mergedBody link.body (withoutCrlf req.text)⟩

/-- The merged mail as the composer's starting point, with the stored signature. -/
def prefillDraft (opts : AnswerOptions) (req : PrefillRequest) : PrefillDraft :=
  let p := merge lower req
  let blank := blankDraft opts
  ⟨joined p.to_, joined p.cc, joined p.bcc, p.subject,
    if p.body = [] then blank.bodyHtml else blank.withText p.body⟩

end Merge

/-! ## Everyone once -/

section Once

variable {lower : ToLowercase isWhitespace}

theorem unique_eq (addrs seen : List (List Char)) :
    unique lower addrs seen = let kept := once (key lower) seen addrs
      (kept, seen ++ kept.map (key lower)) := by
  induction addrs generalizing seen with
  | nil => simp [unique, once]
  | cons addr addrs inductionHypothesis =>
      rw [unique]
      by_cases met : key lower addr ∈ seen
      · rw [if_pos (List.contains_iff_mem.mpr met), inductionHypothesis,
          Data.once_cons_of_mem met]
      · rw [if_neg (by simp [met]), inductionHypothesis, Data.once_cons_of_notMem met]
        simp

/-- All that the link and the platform name, in the order of the fields. -/
def named (req : PrefillRequest) : List (List Char) :=
  let link := (parseMailto req.mailto).getD ⟨[], [], [], [], []⟩
  link.to_ ++ req.to_.flatMap addresses ++ (link.cc ++ req.cc.flatMap addresses) ++
    (link.bcc ++ req.bcc.flatMap addresses)

/-- To, Cc and Bcc together hold the first of each address that is named. -/
theorem merge_once (lower : ToLowercase isWhitespace) (req : PrefillRequest) :
    let p := merge lower req
    p.to_ ++ p.cc ++ p.bcc = once (key lower) [] (named req) := by
  simp only [merge, unique_eq, named, Data.once_append, List.map_append, List.nil_append,
    List.append_assoc]

/-- To, Cc and Bcc together hold each address that is named once, where it is named
first. -/
theorem merge_everyoneOnce (lower : ToLowercase isWhitespace) (req : PrefillRequest) :
    let p := merge lower req
    let fields := p.to_ ++ p.cc ++ p.bcc
    fields.Sublist (named req) ∧ (fields.map (key lower)).Nodup ∧
      ∀ addr ∈ named req, key lower addr ∈ fields.map (key lower) := by
  dsimp only
  rw [merge_once]
  refine ⟨Data.once_sublist _ _ _, Data.nodup_keys_once _ _, fun addr member => ?_⟩
  exact Data.mem_keys_once.mpr ⟨List.mem_map_of_mem member, List.not_mem_nil⟩

end Once

/-! ## Links -/

/-- What may stand for itself anywhere in a link: ASCII but blanks, `%` and the marks
between its parts. -/
def isLiteral (char : Char) : Bool :=
  33 ≤ char.toNat && char.toNat ≤ 126 && !("%#?&".toList.contains char)

/-- The escape of a byte. -/
def escape (byte : UInt8) (upperHigh upperLow : Bool) : List Char :=
  ['%', hexDigit upperHigh (byte.toNat / 16), hexDigit upperLow (byte.toNat % 16)]

/-- Percent-encodings of bytes: every byte is escaped, or stands for itself where it
may. -/
inductive Coded : List UInt8 → List Char → Prop
  | nil : Coded [] []
  | literal {char : Char} {bytes : List UInt8} {code : List Char} (stands : isLiteral char)
      (rest : Coded bytes code) : Coded (UInt8.ofNat char.toNat :: bytes) (char :: code)
  | escaped {bytes : List UInt8} {code : List Char} (byte : UInt8) (upperHigh upperLow : Bool)
      (rest : Coded bytes code) : Coded (byte :: bytes) (escape byte upperHigh upperLow ++ code)

/-- Percent-encodings of a text as UTF-8. -/
def Codes (text code : List Char) : Prop :=
  Coded (text.flatMap String.utf8EncodeChar) code

/-- A header field of a link. -/
def field (name : String) (code : List Char) : List Char :=
  name.toList ++ '=' :: code

/-- Links that name recipients, subject and body. -/
inductive Link (p : Prefill) : List Char → Prop
  | fields {scheme to_ cc bcc subject body subjectText bodyText : List Char}
      (mailto : asciiLower scheme = "mailto".toList)
      (toCodes : Codes ([','].intercalate p.to_) to_)
      (ccCodes : Codes ([','].intercalate p.cc) cc)
      (bccCodes : Codes ([','].intercalate p.bcc) bcc)
      (subjectCodes : Codes subjectText subject) (subjectLine : oneLine subjectText = p.subject)
      (bodyCodes : Codes bodyText body) (bodyLines : withoutCrlf bodyText = p.body) :
      Link p (scheme ++ ':' :: (to_ ++ '?' :: (field "cc" cc ++ '&' :: (field "bcc" bcc ++ '&' ::
        (field "subject" subject ++ '&' :: field "body" body)))))

section Decode

theorem percentDecode_cons {byte : UInt8} (plain : byte ≠ 0x25) (rest : List UInt8) :
    Browser.percentDecode (byte :: rest) = byte :: Browser.percentDecode rest := by
  rcases rest with _ | ⟨second, _ | ⟨third, rest⟩⟩
  · rfl
  · rfl
  · rw [Browser.percentDecode, if_neg plain]

theorem digitValue_hexDigit (upper : Bool) {value : Nat} (small : value < 16) :
    Text.digitValue 16 (hexDigit upper value) = some value := by
  have all : ∀ (upper : Bool) (value : Fin 16),
      Text.digitValue 16 (hexDigit upper value) = some value.val := by decide
  exact all upper ⟨value, small⟩

theorem hexDigit_ascii (upper : Bool) {value : Nat} (small : value < 16) :
    (hexDigit upper value).toNat < 128 ∧ isLiteral (hexDigit upper value) = true := by
  have all : ∀ (upper : Bool) (value : Fin 16), (hexDigit upper value).toNat < 128 ∧
      isLiteral (hexDigit upper value) = true := by decide
  exact all upper ⟨value, small⟩

theorem utf8EncodeChar_ascii {char : Char} (ascii : char.toNat < 128) :
    String.utf8EncodeChar char = [UInt8.ofNat char.toNat] := by
  have small : char.val.toNat ≤ 0x7f := Nat.le_of_lt_succ ascii
  simp only [String.utf8EncodeChar, if_pos small]
  rfl

theorem ofNat_toNat_ascii {char : Char} (ascii : char.toNat < 128) :
    Char.ofNat (UInt8.ofNat char.toNat).toNat = char := by
  rw [Text.toNat_ofNat_small (by omega), Char.ofNat_toNat]

/-- The escape of a byte is read as the byte. -/
theorem percentDecode_escape (byte : UInt8) (upperHigh upperLow : Bool) (rest : List UInt8) :
    Browser.percentDecode ((escape byte upperHigh upperLow).flatMap String.utf8EncodeChar ++
      rest) = byte :: Browser.percentDecode rest := by
  have bound : byte.toNat < 256 := byte.toNat_lt
  have high : byte.toNat / 16 < 16 := by omega
  have low : byte.toNat % 16 < 16 := by omega
  have read : Text.readNumeral 16 [hexDigit upperHigh (byte.toNat / 16),
      hexDigit upperLow (byte.toNat % 16)] = some byte.toNat := by
    have value : (0 * 16 + byte.toNat / 16) * 16 + byte.toNat % 16 = byte.toNat := by omega
    simp only [Text.readNumeral, List.foldlM_cons, List.foldlM_nil, digitValue_hexDigit _ high,
      digitValue_hexDigit _ low, Option.map_some, Option.bind_eq_bind, Option.bind_some, value]
    rfl
  rw [escape, List.flatMap_cons, List.flatMap_cons, List.flatMap_cons, List.flatMap_nil,
    utf8EncodeChar_ascii (by decide), utf8EncodeChar_ascii (hexDigit_ascii upperHigh high).1,
    utf8EncodeChar_ascii (hexDigit_ascii upperLow low).1]
  simp only [List.append_nil, List.cons_append, List.nil_append]
  rw [Browser.percentDecode, if_pos (by decide), ofNat_toNat_ascii (hexDigit_ascii _ high).1,
    ofNat_toNat_ascii (hexDigit_ascii _ low).1, read]
  dsimp only
  rw [UInt8.ofNat_toNat]

theorem isLiteral_range {char : Char} (literal : isLiteral char = true) :
    33 ≤ char.toNat ∧ char.toNat ≤ 126 ∧ char ∉ "%#?&".toList := by
  simpa [isLiteral, and_assoc] using literal

theorem percentDecode_coded {bytes : List UInt8} {code : List Char} (coded : Coded bytes code)
    (rest : List UInt8) :
    Browser.percentDecode (code.flatMap String.utf8EncodeChar ++ rest) =
      bytes ++ Browser.percentDecode rest := by
  induction coded with
  | nil => rfl
  | @literal char bytes code stands _ inductionHypothesis =>
      obtain ⟨-, last, apart⟩ := isLiteral_range stands
      have plain : UInt8.ofNat char.toNat ≠ 0x25 := by
        intro same
        refine apart ?_
        have value := congrArg UInt8.toNat same
        rw [Text.toNat_ofNat_small (by omega)] at value
        have percent : char = '%' := Char.toNat_inj.mp value
        rw [percent]
        decide
      rw [List.flatMap_cons, utf8EncodeChar_ascii (by omega), List.append_assoc,
        List.singleton_append, percentDecode_cons plain, inductionHypothesis, List.cons_append]
  | escaped byte upperHigh upperLow _ inductionHypothesis =>
      rw [List.flatMap_append, List.append_assoc, percentDecode_escape, inductionHypothesis,
        List.cons_append]

/-- What is percent-encoded is decoded again. -/
theorem decode_of_codes {text code : List Char} (codes : Codes text code) :
    decode code = text := by
  have read := percentDecode_coded codes []
  have stop : Browser.percentDecode [] = [] := rfl
  rw [List.append_nil, stop, List.append_nil] at read
  rw [decode, Browser.percentDecoded, read, Text.fromUtf8Lossy_utf8]

/-- No mark and no blank stands in an encoding. -/
theorem mem_coded {bytes : List UInt8} {code : List Char} (coded : Coded bytes code) {char : Char}
    (member : char ∈ code) : char = '%' ∨ isLiteral char = true := by
  induction coded with
  | nil => cases member
  | literal stands _ inductionHypothesis =>
      rcases List.mem_cons.mp member with rfl | later
      · exact .inr stands
      · exact inductionHypothesis later
  | escaped byte upperHigh upperLow _ inductionHypothesis =>
      have bound : byte.toNat < 256 := byte.toNat_lt
      rcases List.mem_append.mp member with here | later
      · simp only [escape, List.mem_cons, List.not_mem_nil, or_false] at here
        rcases here with rfl | rfl | rfl
        · exact .inl rfl
        · exact .inr (hexDigit_ascii upperHigh (by omega)).2
        · exact .inr (hexDigit_ascii upperLow (by omega)).2
      · exact inductionHypothesis later

/-- Text that may stand for itself is an encoding of itself. -/
theorem codes_self {text : List Char} (literal : ∀ char ∈ text, isLiteral char = true) :
    Codes text text := by
  induction text with
  | nil => exact .nil
  | cons char text inductionHypothesis =>
      obtain ⟨here, later⟩ := List.forall_mem_cons.mp literal
      obtain ⟨-, last, -⟩ := isLiteral_range here
      rw [Codes, List.flatMap_cons, utf8EncodeChar_ascii (by omega), List.singleton_append]
      exact .literal here (inductionHypothesis later)

end Decode

section Parse

/-- ASCII but blanks. -/
def Visible (text : List Char) : Prop :=
  ∀ char ∈ text, 33 ≤ char.toNat ∧ char.toNat ≤ 126

theorem Visible.append {first second : List Char} (here : Visible first)
    (later : Visible second) : Visible (first ++ second) := by
  intro char member
  exact (List.mem_append.mp member).elim (here char) (later char)

theorem Visible.cons {char : Char} {text : List Char}
    (here : 33 ≤ char.toNat ∧ char.toNat ≤ 126) (later : Visible text) :
    Visible (char :: text) :=
  List.forall_mem_cons.mpr ⟨here, later⟩

theorem visible_coded {bytes : List UInt8} {code : List Char} (coded : Coded bytes code) :
    Visible code := by
  intro char member
  rcases mem_coded coded member with rfl | literal
  · decide
  · obtain ⟨first, last, -⟩ := isLiteral_range literal
    exact ⟨first, last⟩

theorem trim_visible {text : List Char} (visible : Visible text) : trim text = text := by
  have solid (char : Char) (member : char ∈ text) : isWhitespace char = false := by
    obtain ⟨first, last⟩ := visible char member
    simp only [isWhitespace, Bool.or_eq_false_iff, Bool.and_eq_false_iff, decide_eq_false_iff_not]
    omega
  exact Text.strip_of_bare (fun char first => solid char (List.mem_of_mem_head? first))
    fun char last => solid char (List.mem_of_getLast? last)

/-- A mark between the parts of a link stands in no encoding. -/
theorem notMem_coded {bytes : List UInt8} {code : List Char} (coded : Coded bytes code)
    {mark : Char} (marks : mark ∈ "#?&".toList) : mark ∉ code := by
  intro member
  rcases mem_coded coded member with rfl | literal
  · exact absurd marks (by decide)
  · obtain ⟨-, -, apart⟩ := isLiteral_range literal
    exact apart (List.mem_cons_of_mem _ marks)

theorem scheme_letter {scheme : List Char} (mailto : asciiLower scheme = "mailto".toList)
    {char : Char} (member : char ∈ scheme) : 65 ≤ char.toNat ∧ char.toNat ≤ 122 := by
  have image : char.toLower ∈ "mailto".toList := by
    rw [← mailto]
    exact List.mem_map_of_mem member
  have small : ("mailto".toList.all fun letter =>
      decide (97 ≤ letter.toNat ∧ letter.toNat ≤ 122)) = true := by decide
  have range := of_decide_eq_true (List.all_eq_true.mp small _ image)
  rcases Text.toNat_toLower char with ⟨first, last, -⟩ | ⟨-, same⟩
  · omega
  · rw [same] at range
    omega

theorem splitOnce_append {separator : Char} {front : List Char} (missing : separator ∉ front)
    (back : List Char) : splitOnce separator (front ++ separator :: back) = (front, back) := by
  rw [splitOnce, Text.takeWhile_ne_append missing, Text.dropWhile_ne_append missing]
  rfl

/-- A field of a link keeps its marks apart, and sets what it names. -/
structure Field (name : String) (text written : List Char) : Prop where
  apart : ∀ mark ∈ "#?&".toList, mark ∉ written
  visible : Visible written
  some_ : written ≠ []
  sets : ∀ found, fieldTurn found written = setField found name.toList text

theorem field_coded {name : String} (known : name ∈ ["cc", "bcc", "subject", "body"])
    {text code : List Char} (codes : Codes text code) : Field name text (field name code) := by
  have all : ∀ name ∈ ["cc", "bcc", "subject", "body"],
      ("#?&".toList.all fun mark => decide (mark ∉ name.toList ∧ mark ≠ '=')) = true ∧
        name.toList.all isLiteral = true ∧ '=' ∉ name.toList ∧
        asciiLower name.toList = name.toList := by decide
  obtain ⟨marks, letters, plain, small⟩ := all name known
  have literal := List.all_eq_true.mp letters
  refine ⟨fun mark member => ?_, ?_, by simp [field], fun found => ?_⟩
  · obtain ⟨here, differs⟩ := of_decide_eq_true (List.all_eq_true.mp marks mark member)
    rw [field, List.mem_append, List.mem_cons, not_or, not_or]
    exact ⟨here, differs, notMem_coded codes member⟩
  · refine Visible.append (fun char member => ?_) (.cons (by decide) (visible_coded codes))
    obtain ⟨first, last, -⟩ := isLiteral_range (literal char member)
    exact ⟨first, last⟩
  · rw [fieldTurn, field, splitOnce_append plain]
    dsimp only
    rw [decode_of_codes (codes_self literal), decode_of_codes codes, small]

/-- Addresses that a link can name: what stands between commas, trimmed. -/
def Named (addrs : List (List Char)) : Prop :=
  ∀ addr ∈ addrs, ',' ∉ addr ∧ trim addr = addr ∧ addr ≠ []

theorem addresses_intercalate {addrs : List (List Char)} (named : Named addrs) :
    addresses ([','].intercalate addrs) = addrs := by
  have kept : entriesOf addrs = addrs := by
    rw [entriesOf, List.map_congr_left fun addr member => (named addr member).2.1, List.map_id']
    exact List.filter_eq_self.mpr fun addr member => decide_eq_true (named addr member).2.2
  cases addrs with
  | nil => rfl
  | cons addr addrs =>
      rw [addresses, List.splitOn_intercalate _ (fun part member => (named part member).1)
        (List.cons_ne_nil _ _), kept]

theorem takeWhile_of_notMem {mark : Char} {text : List Char} (missing : mark ∉ text) :
    text.takeWhile (· != mark) = text := by
  rw [List.takeWhile_eq_self_iff]
  intro char member
  rw [bne_iff_ne]
  rintro rfl
  exact missing member

/-- A link is read as what it says. -/
theorem parseMailto_of_link {p : Prefill} {uri : List Char} (link : Link p uri)
    (to_ : Named p.to_) (cc : Named p.cc) (bcc : Named p.bcc) : parseMailto uri = some p := by
  cases link with
  | @fields scheme toCode ccCode bccCode subject body subjectText bodyText mailto toCodes ccCodes
      bccCodes subjectCodes subjectLine bodyCodes bodyLines =>
      have letters : Visible scheme := fun char member => by
        obtain ⟨first, last⟩ := scheme_letter mailto member
        omega
      have noColon : ':' ∉ scheme := fun member => absurd (scheme_letter mailto member) (by decide)
      have first := @field_coded "cc" (by decide) _ _ ccCodes
      have second := @field_coded "bcc" (by decide) _ _ bccCodes
      have third := @field_coded "subject" (by decide) _ _ subjectCodes
      have fourth := @field_coded "body" (by decide) _ _ bodyCodes
      generalize field "cc" ccCode = ccField at first ⊢
      generalize field "bcc" bccCode = bccField at second ⊢
      generalize field "subject" subject = subjectField at third ⊢
      generalize field "body" body = bodyField at fourth ⊢
      let query := ccField ++ '&' :: (bccField ++ '&' :: (subjectField ++ '&' :: bodyField))
      change parseMailto (scheme ++ ':' :: (toCode ++ '?' :: query)) = some p
      have visible : Visible (scheme ++ ':' :: (toCode ++ '?' :: query)) :=
        letters.append (.cons (by decide) ((visible_coded toCodes).append (.cons (by decide)
          (first.visible.append (.cons (by decide) (second.visible.append (.cons (by decide)
            (third.visible.append (.cons (by decide) fourth.visible)))))))))
      have colon : ':' ∈ scheme ++ ':' :: (toCode ++ '?' :: query) :=
        List.mem_append_right _ List.mem_cons_self
      have noFragment : '#' ∉ toCode ++ '?' :: query := by
        simp only [query, List.mem_append, List.mem_cons, not_or]
        exact ⟨notMem_coded toCodes (by decide), by decide, first.apart _ (by decide), by decide,
          second.apart _ (by decide), by decide, third.apart _ (by decide), by decide,
          fourth.apart _ (by decide)⟩
      have cut : (query.splitOn '&').filter (· ≠ []) =
          [ccField, bccField, subjectField, bodyField] := by
        rw [List.splitOn_append_cons_self, List.splitOn_append_cons_self,
          List.splitOn_append_cons_self, List.splitOn_eq_singleton (first.apart _ (by decide)),
          List.splitOn_eq_singleton (second.apart _ (by decide)),
          List.splitOn_eq_singleton (third.apart _ (by decide)),
          List.splitOn_eq_singleton (fourth.apart _ (by decide))]
        simp [first.some_, second.some_, third.some_, fourth.some_]
      have set (cc bcc subject body : List Char) :
          setField (setField (setField (setField (⟨p.to_, [], [], [], []⟩, none) "cc".toList cc)
            "bcc".toList bcc) "subject".toList subject) "body".toList body =
          (⟨p.to_, addresses cc, addresses bcc, oneLine subject, []⟩, some body) :=
        rfl
      rw [parseMailto, trim_visible visible, if_neg (not_not_intro colon),
        splitOnce_append noColon]
      dsimp only
      rw [if_neg (not_not_intro mailto), takeWhile_of_notMem noFragment,
        splitOnce_append (notMem_coded toCodes (by decide))]
      dsimp only
      rw [cut, decode_of_codes toCodes, addresses_intercalate to_]
      simp only [List.foldl_cons, List.foldl_nil]
      rw [first.sets, second.sets, third.sets, fourth.sets, set, addresses_intercalate cc,
        addresses_intercalate bcc, subjectLine]
      dsimp only [Option.getD_some]
      rw [bodyLines]

end Parse

/-! ## From the link to the mail -/

section Arrive

variable {lower : ToLowercase isWhitespace} {p : Prefill} {uri : List Char}

theorem named_of_entries {addrs : List (List Char)} (entries : ∀ addr ∈ addrs, IsEntry addr) :
    Named addrs := by
  intro addr member
  obtain ⟨plain, bare, some_⟩ := entries addr member
  exact ⟨fun comma => absurd (plain ',' comma) (by decide), bare, some_⟩

/-- A link with no address twice is merged into what it says. -/
theorem merge_of_link (link : Link p uri)
    (entries : ∀ addr ∈ p.to_ ++ p.cc ++ p.bcc, IsEntry addr)
    (distinct : ((p.to_ ++ p.cc ++ p.bcc).map (key lower)).Nodup) :
    merge lower ⟨uri, [], [], [], [], []⟩ =
      ⟨p.to_, p.cc, p.bcc, if trim p.subject = [] then [] else p.subject, trim p.body⟩ := by
  obtain ⟨inTo, inCc, inBcc⟩ : (∀ addr ∈ p.to_, IsEntry addr) ∧ (∀ addr ∈ p.cc, IsEntry addr) ∧
      ∀ addr ∈ p.bcc, IsEntry addr := by
    simp only [List.mem_append] at entries
    exact ⟨fun addr member => entries addr (.inl (.inl member)),
      fun addr member => entries addr (.inl (.inr member)),
      fun addr member => entries addr (.inr member)⟩
  have read := parseMailto_of_link link (named_of_entries inTo) (named_of_entries inCc)
    (named_of_entries inBcc)
  have nothing : trim (withoutCrlf []) = [] := rfl
  have body : mergedBody p.body (withoutCrlf []) = trim p.body := by
    rw [mergedBody, nothing]
    by_cases blank : trim p.body = []
    · rw [if_pos blank, blank]
    · rw [if_neg blank, if_pos rfl]
  have line : oneLine [] = [] := rfl
  rw [List.map_append, List.map_append, List.nodup_append, List.nodup_append] at distinct
  obtain ⟨⟨once1, once2, apart⟩, once3, apartBoth⟩ := distinct
  have kept1 : once (key lower) [] p.to_ = p.to_ :=
    Data.once_of_nodup once1 fun _ _ => List.not_mem_nil
  have kept2 : once (key lower) (p.to_.map (key lower)) p.cc = p.cc :=
    Data.once_of_nodup once2 fun addr member met =>
      apart _ met _ (List.mem_map_of_mem member) rfl
  have kept3 : once (key lower) (p.to_.map (key lower) ++ p.cc.map (key lower)) p.bcc = p.bcc :=
    Data.once_of_nodup once3 fun addr member met =>
      apartBoth _ met _ (List.mem_map_of_mem member) rfl
  simp only [merge, read, Option.getD_some, List.flatMap_nil, List.append_nil, unique_eq,
    List.nil_append, kept1, kept2, kept3, body, line]

theorem oneLine_of_blank {text : List Char} (blank : trim (oneLine text) = []) :
    oneLine text = [] := by
  unfold oneLine at blank ⊢
  cases words : (text.splitOnP isWhitespace).filter (· ≠ []) with
  | nil => rfl
  | cons word later =>
      rw [words] at blank
      have member : word ∈ (text.splitOnP isWhitespace).filter (· ≠ []) := by
        rw [words]
        exact List.mem_cons_self
      rw [List.mem_filter, decide_eq_true_eq] at member
      obtain ⟨char, rest, rfl⟩ := List.exists_cons_of_ne_nil member.2
      have solid := Text.not_cut_of_mem_splitOnP member.1 char List.mem_cons_self
      have first : char ∈ [' '].intercalate ((char :: rest) :: later) := by
        cases later with
        | nil => simp
        | cons next later => simp [List.intercalate_cons_cons]
      have kept : char ∈ trim ([' '].intercalate ((char :: rest) :: later)) :=
        Text.mem_strip first solid
      rw [blank] at kept
      cases kept

/-- What a link says arrives: the form reads its recipients in the fields of the
composer, and the text stands in every part of the mail. -/
theorem prefill_arrives (isAlphanumeric : Char → Bool) (lower : ToLowercase isWhitespace)
    (link : Link p uri) (entries : ∀ addr ∈ p.to_ ++ p.cc ++ p.bcc, IsEntry addr)
    (distinct : ((p.to_ ++ p.cc ++ p.bcc).map (key lower)).Nodup) (opts : AnswerOptions)
    (some_ : shownLines (withLf (trim p.body)) ≠ [])
    (short : byteLen (prefillDraft lower opts ⟨uri, [], [], [], [], []⟩).bodyHtml ≤ MAX_HTML_BYTES)
    (few : ((textBlocks (trim p.body) ++ signatureBlocks opts).flatMap paragraphText).count '\n' <
      MAX_TEXT_LINES)
    (bodyText : List Char) (fresh : Nat → List Char) (domain : List Char)
    (wanted : Export.SendFormat) (includePlain : Bool) :
    let draft := prefillDraft lower opts ⟨uri, [], [], [], [], []⟩
    Compose.addresses draft.to_ = p.to_ ∧ Compose.addresses draft.cc = p.cc ∧
      Compose.addresses draft.bcc = p.bcc ∧ draft.subject = p.subject ∧
      ∃ out, outgoingBodies isAlphanumeric fresh domain bodyText (some draft.bodyHtml) wanted
          includePlain = .ok out ∧
        out.format = effectiveFormat wanted false includePlain ∧ out.inlines = [] ∧
        Carries out (shownLines (withLf (trim p.body)) ++
          Text.leftOf isWhitespace (signatureBlocks opts).flatten) := by
  have merged := merge_of_link link entries distinct
  have blank : trim p.body ≠ [] := by
    intro nothing
    rw [nothing] at some_
    exact some_ rfl
  have line : (if trim p.subject = [] then [] else p.subject) = p.subject := by
    cases link with
    | fields _ _ _ _ _ subjectLine =>
        split_ifs with empty
        · rw [← subjectLine] at empty ⊢
          exact (oneLine_of_blank empty).symm
        · rfl
  have joins (addrs : List (List Char)) (inside : ∀ addr ∈ addrs, addr ∈ p.to_ ++ p.cc ++ p.bcc) :
      Compose.addresses (joined addrs) = addrs :=
    addresses_joined fun addr member => entries addr (inside addr member)
  have whole : (prefillDraft lower opts ⟨uri, [], [], [], [], []⟩).bodyHtml =
      paragraphs (textBlocks (trim p.body) ++ signatureBlocks opts) := by
    rw [prefillDraft, merged]
    dsimp only
    rw [if_neg blank, AnswerDraft.withText, textHtml_eq, paragraphs_append, ← signature_eq]
    exact List.append_nil _
  have read : Text.leftOf isWhitespace (textBlocks (trim p.body) ++ signatureBlocks opts).flatten =
      shownLines (withLf (trim p.body)) ++
        Text.leftOf isWhitespace (signatureBlocks opts).flatten := by
    rw [List.flatten_append, Text.leftOf_append, leftOf_textBlocks]
  dsimp only
  rw [whole] at short ⊢
  rw [prefillDraft, merged, ← read]
  refine ⟨joins _ fun addr member => ?_, joins _ fun addr member => ?_,
    joins _ fun addr member => ?_, line, ?_⟩
  · simp [member]
  · simp [member]
  · simp [member]
  · refine outgoingBodies_paragraphs ⟨?_, short, few⟩ ?_ (.editor bodyText) fresh domain wanted
      includePlain
    · exact lined_append (lined_textBlocks _) (lined_signatureBlocks opts)
    · rw [read]
      exact List.append_ne_nil_of_left_ne_nil some_ _

end Arrive

/-- `MailTo:ann@x.org?cc=&bcc=&subject=Plan&body=On%20Friday`. -/
def Sample.plan : List Char :=
  "MailTo".toList ++ ':' :: ("ann@x.org".toList ++ '?' :: (field "cc" [] ++ '&' ::
    (field "bcc" [] ++ '&' :: (field "subject" "Plan".toList ++ '&' ::
      field "body" "On%20Friday".toList))))

theorem Sample.literal {text : List Char} (letters : text.all isLiteral = true) :
    Codes text text :=
  codes_self (List.all_eq_true.mp letters)

theorem Sample.escaped : Codes "On Friday".toList "On%20Friday".toList :=
  @Coded.literal 'O' _ _ rfl (@Coded.literal 'n' _ _ rfl
    (.escaped 0x20 false false (Sample.literal (by decide))))

theorem Sample.link :
    Link ⟨["ann@x.org".toList], [], [], "Plan".toList, "On Friday".toList⟩ Sample.plan :=
  .fields (by decide) (Sample.literal (by decide)) (Sample.literal (by decide))
    (Sample.literal (by decide)) (Sample.literal (by decide)) (by decide) Sample.escaped
    (by decide)

theorem prefill_arrives_sample :
    let opts : AnswerOptions := ⟨"me@home.org".toList, some "Max\n".toList, true⟩
    let draft := prefillDraft Sample.lower opts ⟨Sample.plan, [], [], [], [], []⟩
    Compose.addresses draft.to_ = ["ann@x.org".toList] ∧ Compose.addresses draft.cc = [] ∧
      Compose.addresses draft.bcc = [] ∧ draft.subject = "Plan".toList ∧
      ∃ out, outgoingBodies Char.isAlphanum (fun _ => []) "home.org".toList []
          (some draft.bodyHtml) .auto true = .ok out ∧
        out.format = .plain ∧ out.inlines = [] ∧
        Carries out ["On Friday".toList, "--".toList, "Max".toList] :=
  prefill_arrives Char.isAlphanum Sample.lower Sample.link (by decide) (by decide)
    ⟨"me@home.org".toList, some "Max\n".toList, true⟩ (by decide)
    (by rw [prefillDraft, merge_of_link Sample.link (by decide) (by decide)]; decide) (by decide) []
    (fun _ => []) "home.org".toList .auto true

end Prefill

end Compose
end Mailcore

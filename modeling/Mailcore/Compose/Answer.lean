import Mailcore.Compose.Bodies
import Mailcore.Compose.OneReading
import Mailcore.Data.Group
import Mailcore.Text.Lines

/-!
# Answers

New, reply, reply-all and forward drafts: recipients, subject, attribution, quote
and signature.  A reply to all names everyone once, and what is typed above a quote
arrives with it.
-/

namespace Mailcore
namespace Compose

open Html
open Data (once)
open Outbox (isWhitespace)
open Text (asciiLower afterLast beforeLast leftOf lines pieces strip ToLowercase)

/-! ## Where a reply goes -/

/-- The address inside `Name <addr>`, or the whole trimmed text. -/
def bare (addr : List Char) : List Char :=
  let s := trim addr
  let behind := (s.dropWhile (· != '<')).drop 1
  if '<' ∈ s ∧ '>' ∈ behind then trim (beforeLast '>' behind) else s

/-- The address a reply is sent to, and whether that is not the sender. -/
structure ReplyAddress where
  target : List Char
  differs : Bool

/-- Reply-To when the mail sets one, else From. -/
def replyAddress (from_ replyTo : List Char) : ReplyAddress :=
  let replyTo := trim replyTo
  if replyTo = [] then ⟨trim from_, false⟩
  else ⟨replyTo, asciiLower (bare replyTo) ≠ asciiLower (bare from_)⟩

/-! ## Sender identities -/

/-- A sender address, the domain with its `@`. -/
structure SenderParts where
  local_ : List Char
  domain : List Char

/-- Split at the last `@`. -/
def senderParts (address : List Char) : SenderParts :=
  let address := trim address
  if '@' ∈ address then ⟨beforeLast '@' address, '@' :: afterLast '@' address⟩
  else ⟨address, []⟩

/-- The address a From field sends as. -/
def effectiveFrom (local_ accountEmail : List Char) : List Char :=
  let local_ := trim ((trim local_).takeWhile (· != '@'))
  if local_ = [] then trim accountEmail else local_ ++ (senderParts accountEmail).domain

/-- Whether the visible sender stays within the domain of the account. -/
def senderDomainIsAligned (from_ accountEmail : List Char) : Bool :=
  '@' ∈ from_ && '@' ∈ accountEmail &&
    (afterLast '@' from_ ≠ [] && afterLast '@' accountEmail ≠ [] &&
      asciiLower (afterLast '@' from_) = asciiLower (afterLast '@' accountEmail))

/-! ## Drafts -/

inductive AnswerMode
  | reply
  | replyAll
  | forward
  | resend
  deriving DecidableEq

/-- The message being answered, bodies already sanitized. -/
structure AnswerSource where
  from_ : List Char
  fromName : List Char
  to_ : List (List Char)
  cc : List (List Char)
  /-- Envelope recipients that the receiving server recorded. -/
  envelopeTo : List (List Char)
  replyTo : List Char
  subject : List Char
  date : List Char
  isHtml : Bool
  bodyHtml : List Char
  bodyText : List Char

/-- User settings that shape the draft. -/
structure AnswerOptions where
  ownAddress : List Char
  signature : Option (List Char)
  replyBelowQuote : Bool

/-- The prepared draft. -/
structure AnswerDraft where
  from_ : List Char
  to_ : List Char
  cc : List Char
  subject : List Char
  noticeAddr : List Char
  noticeSender : List Char
  notice : List Char
  signatureHtml : List Char
  signatureText : List Char
  quoteHtml : List Char
  quoteFirst : Bool
  bodyHtml : List Char

/-- The empty line the user types into. -/
def TEXT_SLOT : List Char := "<p><br></p>".toList

def SEP_HTML : List Char := "<hr>".toList

def SEP_TEXT : List Char := "<p>---</p>".toList

/-- An HTML original is quoted as HTML. -/
def quotesHtml (src : AnswerSource) : Bool :=
  src.isHtml && trim src.bodyHtml ≠ []

/-- Which separator the quote gets. -/
def separator (src : AnswerSource) : List Char :=
  if quotesHtml src then SEP_HTML else SEP_TEXT

/-- `text.replace("\r\n", "\n")`. -/
def withoutCrlf : List Char → List Char
  | [] => []
  | '\r' :: '\n' :: rest => '\n' :: withoutCrlf rest
  | char :: rest => char :: withoutCrlf rest

/-- Every line break is LF. -/
def withLf (text : List Char) : List Char :=
  (withoutCrlf text).map fun char => if char = '\r' then '\n' else char

/-- The blocks between blank lines, in lines. -/
def typedBlocks (text : List Char) : List (List (List Char)) :=
  let blocks := (Text.segments ['\n', '\n'] (withLf text)).map (strip (· = '\n'))
  (blocks.filter fun block => trim block ≠ []).map (List.splitOn '\n')

/-- Plain text as editor HTML. -/
def textHtml (text : List Char) : List Char :=
  if typedBlocks text = [] then TEXT_SLOT else paragraphs (typedBlocks text)

/-- The whole body with a text in place of the empty line. -/
def AnswerDraft.withText (draft : AnswerDraft) (text : List Char) : List Char :=
  let text := textHtml text
  if draft.quoteFirst then draft.quoteHtml ++ text ++ draft.signatureHtml
  else text ++ draft.signatureHtml ++ draft.quoteHtml

/-- Lines without the blank ones at both ends. -/
def trimmedLines (text : List Char) : List (List Char) :=
  strip (fun line => trim line = []) (lines text)

/-- The signature as HTML and as text. -/
def AnswerDraft.signature (opts : AnswerOptions) : List Char × List Char :=
  let lines := (opts.signature.map trimmedLines).getD []
  if lines = [] then ([], [])
  else
    ("<p>-- <br>".toList ++ "<br>".toList.intercalate (lines.map escapeText) ++ "</p>".toList,
      "-- \n".toList ++ ['\n'].intercalate lines)

/-- A header as its own paragraph, then the original. -/
def quote (header : List Char) (src : AnswerSource) : List Char :=
  let head := "<p>".toList ++ "<br>".toList.intercalate ((lines header).map escapeText) ++
    "</p>".toList
  if quotesHtml src then
    head ++ "<blockquote>".toList ++ src.bodyHtml ++ "</blockquote>".toList
  else
    let text := if trim src.bodyText = [] then htmlToText src.bodyHtml else src.bodyText
    let cited := (lines (text.rdropWhile isWhitespace)).map fun line =>
      "&gt; ".toList ++ escapeText line
    head ++ "<p>".toList ++ "<br>".toList.intercalate cited ++ "</p>".toList

/-- A new, empty mail. -/
def blankDraft (opts : AnswerOptions) : AnswerDraft :=
  let (signatureHtml, signatureText) := AnswerDraft.signature opts
  ⟨[], [], [], [], [], [], [], signatureHtml, signatureText, [], false,
    if signatureHtml = [] then [] else TEXT_SLOT ++ signatureHtml⟩

section Recipients

variable (lower : ToLowercase isWhitespace)

/-- By what an address is compared. -/
def addressKey (addr : List Char) : List Char :=
  lower.apply (bare addr)

/-- Addresses once each, skipping blanks and what was seen, which grows as it
goes. -/
def uniqueAddrs : List (List Char) → List (List Char) → List (List Char) × List (List Char)
  | [], seen => ([], seen)
  | addr :: addrs, seen =>
      let key := addressKey lower addr
      if key = [] ∨ seen.contains key then uniqueAddrs addrs seen
      else
        let (out, seen) := uniqueAddrs addrs (seen ++ [key])
        (trim addr :: out, seen)

/-- `join(", ")`. -/
def joined (addrs : List (List Char)) : List Char :=
  ", ".toList.intercalate addrs

/-- The sender and everyone the original went to, except our addresses and the
reply target. -/
def replyAllCc (src : AnswerSource) (target : List Char) (ours : List (List Char)) : List Char :=
  let seen := addressKey lower target :: ours.map fun a => lower.apply (trim a)
  joined (uniqueAddrs lower (src.from_ :: (src.to_ ++ src.cc)) seen).1

/-- An address on the domain of the account that is not the account's. -/
def isAlias (domain own a : List Char) : Bool :=
  decide (byteLen domain < byteLen a) && decide (domain <:+ a) && a ≠ own

/-- The aliases of To and Cc, as far as they are one. -/
def soleAlias (domain own : List Char) : List (List Char) → List Char → List Char
  | [], found => found
  | addr :: addrs, found =>
      let a := addressKey lower addr
      if isAlias domain own a = false then soleAlias domain own addrs found
      else if found = [] then soleAlias domain own addrs a
      else if found ≠ a then []
      else soleAlias domain own addrs found

/-- The address on the account's domain that a message was delivered to. -/
def replyFrom (src : AnswerSource) (own : List Char) : List Char :=
  let domain := lower.apply (senderParts own).domain
  let own := lower.apply own
  if domain = [] then []
  else
    match (src.envelopeTo.map (addressKey lower)).find? (isAlias domain own) with
    | some hit => hit
    | none =>
        if src.envelopeTo ≠ [] then []
        else soleAlias lower domain own (src.to_ ++ src.cc) []

/-- The recipients of a reply to mail we sent ourselves. -/
def ownMailRecipients (src : AnswerSource) (own : List Char) : Option (List (List Char)) :=
  let ours (a : List Char) := own ≠ [] ∧ asciiLower a = asciiLower own
  let replyTo := bare src.replyTo
  if ¬ours (bare src.from_) ∨ ¬(replyTo = [] ∨ ours replyTo) then none
  else
    let to_ := (uniqueAddrs lower src.to_ [lower.apply own]).1
    if to_ = [] then none else some to_

/-- `prefix subject`, unless the subject already starts with a known one. -/
def prefixed (subject front : List Char) (known : List String) : List Char :=
  let s := trim subject
  if known.any (startsWith (lower.apply s)) then s
  else (front ++ ' ' :: s).rdropWhile isWhitespace

/-- Recipients of an answer: the address to send as, where the reply goes, and
Cc. -/
def answerRecipients (src : AnswerSource) (mode : AnswerMode) (own : List Char) :
    List Char × ReplyAddress × List Char :=
  match ownMailRecipients lower src own with
  | some to_ =>
      let cc :=
        if mode = .replyAll then
          joined (uniqueAddrs lower src.cc
            (lower.apply own :: to_.map (addressKey lower))).1
        else []
      ([], ⟨joined to_, false⟩, cc)
  | none =>
      let from_ := replyFrom lower src own
      let reply := replyAddress src.from_ src.replyTo
      let cc :=
        if mode = .replyAll then replyAllCc lower src reply.target [own, from_] else []
      (from_, reply, cc)

/-- The sender as the attribution names it. -/
def senderText (src : AnswerSource) : List Char :=
  if trim src.fromName = [] then src.from_
  else trim src.fromName ++ " <".toList ++ src.from_ ++ ['>']

/-- Builds the draft for a message. -/
def answerDraft (src : AnswerSource) (mode : AnswerMode) (opts : AnswerOptions) : AnswerDraft :=
  let (signatureHtml, signatureText) := AnswerDraft.signature opts
  let sender := senderText src
  if mode = .forward then
    let header := "— Forwarded message —\nFrom: ".toList ++ sender ++ "\nDate: ".toList ++
      src.date ++ "\nSubject: ".toList ++ src.subject
    let quoteHtml := separator src ++ quote header src
    ⟨[], [], [], prefixed lower src.subject "Fwd:".toList ["fwd:", "fw:", "wg:"], [], [], [],
      signatureHtml, signatureText, quoteHtml, false, TEXT_SLOT ++ signatureHtml ++ quoteHtml⟩
  else
    let own := trim opts.ownAddress
    let (from_, reply, cc) := answerRecipients lower src mode own
    let inner := quote ("On ".toList ++ src.date ++ ", ".toList ++ sender ++ " wrote:".toList) src
    let sep := separator src
    let quoteHtml := if opts.replyBelowQuote then inner ++ sep else sep ++ inner
    let bodyHtml :=
      if opts.replyBelowQuote then inner ++ sep ++ TEXT_SLOT ++ signatureHtml
      else TEXT_SLOT ++ signatureHtml ++ sep ++ inner
    ⟨from_, reply.target, cc, prefixed lower src.subject "Re:".toList ["re:", "aw:"],
      if reply.differs then reply.target else [],
      if reply.differs then src.from_ else [],
      if reply.differs then
        "Replies to this mail go to ".toList ++ reply.target ++ " — not to the sender (".toList ++
          src.from_ ++ ").".toList
      else [],
      signatureHtml, signatureText, quoteHtml, opts.replyBelowQuote, bodyHtml⟩

end Recipients

/-! ## Everyone once -/

section Everyone

variable {lower : ToLowercase isWhitespace}

theorem apply_nil (lower : ToLowercase isWhitespace) : lower.apply [] = [] := by
  have lowered := lower.lowered []
  generalize lower.apply [] = image at lowered
  cases lowered
  rfl

theorem bare_trim (addr : List Char) : bare (trim addr) = bare addr := by
  have again : trim (trim addr) = trim addr := Text.strip_strip _ addr
  rw [bare, bare, again]

theorem addressKey_trim (addr : List Char) :
    addressKey lower (trim addr) = addressKey lower addr := by
  rw [addressKey, bare_trim]
  rfl

/-- An address with a key is not blank. -/
theorem trim_ne_nil_of_addressKey {addr : List Char} (some_ : addressKey lower addr ≠ []) :
    trim addr ≠ [] := by
  intro blank
  have nothing : bare addr = [] := by
    rw [← bare_trim, blank]
    rfl
  rw [addressKey, nothing] at some_
  exact some_ (apply_nil lower)

/-- The loop keeps the first of each key that is not blank. -/
theorem uniqueAddrs_eq (addrs seen : List (List Char)) :
    uniqueAddrs lower addrs seen =
      let kept := once (addressKey lower) seen
        (addrs.filter fun addr => addressKey lower addr ≠ [])
      (kept.map trim, seen ++ kept.map (addressKey lower)) := by
  induction addrs generalizing seen with
  | nil => simp [uniqueAddrs, once]
  | cons addr addrs inductionHypothesis =>
      rw [uniqueAddrs]
      by_cases blank : addressKey lower addr = []
      · have dropped : (addr :: addrs).filter (fun addr => addressKey lower addr ≠ []) =
            addrs.filter fun addr => addressKey lower addr ≠ [] :=
          List.filter_cons_of_neg (by simp [blank])
        rw [if_pos (.inl blank), inductionHypothesis, dropped]
      · have stays : (addr :: addrs).filter (fun addr => addressKey lower addr ≠ []) =
            addr :: addrs.filter fun addr => addressKey lower addr ≠ [] :=
          List.filter_cons_of_pos (by simp [blank])
        rw [stays]
        by_cases met : addressKey lower addr ∈ seen
        · rw [if_pos (.inr (List.contains_iff_mem.mpr met)), inductionHypothesis,
            Data.once_cons_of_mem met]
        · rw [if_neg (by simp [blank, met]), inductionHypothesis,
            Data.once_cons_of_notMem met]
          simp

theorem keys_uniqueAddrs (addrs seen : List (List Char)) :
    (uniqueAddrs lower addrs seen).1.map (addressKey lower) =
      (once (addressKey lower) seen
        (addrs.filter fun addr => addressKey lower addr ≠ [])).map (addressKey lower) := by
  rw [uniqueAddrs_eq, List.map_map]
  exact List.map_congr_left fun addr _ => addressKey_trim addr

theorem nodup_uniqueAddrs (addrs seen : List (List Char)) :
    ((uniqueAddrs lower addrs seen).1.map (addressKey lower)).Nodup := by
  rw [keys_uniqueAddrs]
  exact Data.nodup_keys_once seen _

theorem mem_keys_uniqueAddrs {addrs seen : List (List Char)} {key : List Char} :
    key ∈ (uniqueAddrs lower addrs seen).1.map (addressKey lower) ↔
      key ∈ addrs.map (addressKey lower) ∧ key ≠ [] ∧ key ∉ seen := by
  rw [keys_uniqueAddrs, Data.mem_keys_once]
  constructor
  · rintro ⟨listed, unmet⟩
    obtain ⟨addr, member, rfl⟩ := List.mem_map.mp listed
    rw [List.mem_filter, decide_eq_true_eq] at member
    exact ⟨List.mem_map_of_mem member.1, member.2, unmet⟩
  · rintro ⟨listed, some_, unmet⟩
    obtain ⟨addr, member, rfl⟩ := List.mem_map.mp listed
    refine ⟨List.mem_map_of_mem ?_, unmet⟩
    rw [List.mem_filter, decide_eq_true_eq]
    exact ⟨member, some_⟩

/-- Header texts of which each is blank or names one recipient. -/
def Singles (addrs : List (List Char)) : Prop :=
  ∀ addr ∈ addrs, trim addr = [] ∨ IsEntry (trim addr)

instance (text : List Char) : Decidable (IsEntry text) :=
  @instDecidableAnd _ _ (List.decidableBAll _ text) inferInstance

instance (addrs : List (List Char)) : Decidable (Singles addrs) :=
  List.decidableBAll _ addrs

theorem isEntry_of_mem_uniqueAddrs {addrs seen : List (List Char)} (singles : Singles addrs)
    {entry : List Char} (member : entry ∈ (uniqueAddrs lower addrs seen).1) : IsEntry entry := by
  rw [uniqueAddrs_eq] at member
  obtain ⟨addr, kept, rfl⟩ := List.mem_map.mp member
  have listed := (Data.once_sublist _ _ _).subset kept
  rw [List.mem_filter, decide_eq_true_eq] at listed
  exact (singles addr listed.1).resolve_left (trim_ne_nil_of_addressKey listed.2)

/-- A joined field is read as the entries it was joined from. -/
theorem addresses_joined {entries : List (List Char)} (all : ∀ entry ∈ entries, IsEntry entry) :
    addresses (joined entries) = entries := by
  induction entries with
  | nil => rfl
  | cons entry entries inductionHypothesis =>
      obtain ⟨first, rest⟩ := List.forall_mem_cons.mp all
      cases entries with
      | nil =>
          rw [joined, List.intercalate_singleton]
          exact (addresses_of_isEntry first).2
      | cons next entries =>
          have cut : joined (entry :: next :: entries) =
              entry ++ ',' :: ' ' :: joined (next :: entries) := by
            rw [joined, List.intercalate_cons_cons]
            simp [joined]
          have spaced (field : List Char) : addresses (' ' :: field) = addresses field := by
            rw [addresses, trim_cons (by decide), addresses]
          rw [cut, addresses_append entry (by decide), (addresses_of_isEntry first).2, spaced,
            inductionHypothesis rest]
          rfl

/-- Whom a reply to all is for: nobody writes to themselves to answer their own
mail. -/
def participants (lower : ToLowercase isWhitespace) (src : AnswerSource) (own : List Char) :
    List (List Char) :=
  if (ownMailRecipients lower src own).isSome then src.to_ ++ src.cc
  else src.from_ :: (src.to_ ++ src.cc)

/-- The keys of those a draft is addressed to, as the form reads its fields. -/
def reached (lower : ToLowercase isWhitespace) (draft : AnswerDraft) : List (List Char) :=
  (addresses draft.to_ ++ addresses draft.cc).map (addressKey lower)

/-- A reply to all names everyone once: the reply target, and all participants but
the user, under the account's address or the one the reply comes from. -/
structure EveryoneOnce (lower : ToLowercase isWhitespace) (src : AnswerSource)
    (own : List Char) (draft : AnswerDraft) : Prop where
  once : (reached lower draft).Nodup
  target : ownMailRecipients lower src own = none →
    addresses draft.to_ = if draft.to_ = [] then [] else [draft.to_]
  all : ∀ key, key ∈ reached lower draft ↔
    (ownMailRecipients lower src own = none ∧ draft.to_ ≠ [] ∧ key = addressKey lower draft.to_) ∨
      key ∈ (participants lower src own).map (addressKey lower) ∧ key ≠ [] ∧
        key ≠ lower.apply own ∧ key ≠ lower.apply (trim draft.from_)

theorem ownMailRecipients_some {src : AnswerSource} {own : List Char}
    {to_ : List (List Char)} (found : ownMailRecipients lower src own = some to_) :
    to_ = (uniqueAddrs lower src.to_ [lower.apply own]).1 := by
  unfold ownMailRecipients at found
  dsimp only at found
  split_ifs at found
  exact (Option.some.inj found).symm

theorem answerDraft_replyAll (src : AnswerSource) (opts : AnswerOptions) :
    let draft := answerDraft lower src .replyAll opts
    let recipients := answerRecipients lower src .replyAll (trim opts.ownAddress)
    draft.from_ = recipients.1 ∧ draft.to_ = recipients.2.1.target ∧ draft.cc = recipients.2.2 :=
  ⟨rfl, rfl, rfl⟩

/-- Mail we sent ourselves is answered to those it went to. -/
theorem everyoneOnce_own {src : AnswerSource} {own : List Char} {to_ : List (List Char)}
    (singles : Singles (src.to_ ++ src.cc)) (found : ownMailRecipients lower src own = some to_)
    {draft : AnswerDraft} (from_ : draft.from_ = []) (names : draft.to_ = joined to_)
    (copies : draft.cc = joined (uniqueAddrs lower src.cc
      (lower.apply own :: to_.map (addressKey lower))).1) :
    EveryoneOnce lower src own draft := by
  have kept := ownMailRecipients_some found
  have readTo : addresses draft.to_ = to_ := by
    rw [names]
    refine addresses_joined fun entry member => ?_
    rw [kept] at member
    exact isEntry_of_mem_uniqueAddrs
      (fun addr inside => singles addr (List.mem_append_left _ inside)) member
  have readCc : addresses draft.cc = (uniqueAddrs lower src.cc
      (lower.apply own :: to_.map (addressKey lower))).1 := by
    rw [copies]
    exact addresses_joined fun entry => isEntry_of_mem_uniqueAddrs
      fun addr inside => singles addr (List.mem_append_right _ inside)
  have listed {key : List Char} : key ∈ to_.map (addressKey lower) ↔
      key ∈ src.to_.map (addressKey lower) ∧ key ≠ [] ∧ key ∉ [lower.apply own] := by
    rw [kept]
    exact mem_keys_uniqueAddrs
  have answered : (ownMailRecipients lower src own).isSome = true := by rw [found]; rfl
  refine ⟨?_, fun none_ => ?_, fun key => ?_⟩
  · rw [reached, readTo, readCc, List.map_append]
    refine List.Nodup.append ?_ (nodup_uniqueAddrs _ _) fun key inTo inCc => ?_
    · rw [kept]
      exact nodup_uniqueAddrs _ _
    · exact (mem_keys_uniqueAddrs.mp inCc).2.2 (List.mem_cons_of_mem _ inTo)
  · rw [found] at none_
    cases none_
  · rw [reached, readTo, readCc, List.map_append, List.mem_append, mem_keys_uniqueAddrs,
      List.mem_cons, not_or, participants, if_pos answered, List.map_append, List.mem_append,
      from_, found]
    have nothing : lower.apply (trim []) = [] := apply_nil lower
    rw [nothing]
    constructor
    · rintro (inTo | ⟨inCc, some_, other, -⟩)
      · obtain ⟨inside, some_, other⟩ := listed.mp inTo
        exact .inr ⟨.inl inside, some_, fun same => other (same ▸ List.mem_singleton_self _), some_⟩
      · exact .inr ⟨.inr inCc, some_, other, some_⟩
    · rintro (⟨none_, -⟩ | ⟨inTo | inCc, some_, other, -⟩)
      · cases none_
      · exact .inl (listed.mpr ⟨inTo, some_, fun same => other (List.mem_singleton.mp same)⟩)
      · by_cases met : key ∈ to_.map (addressKey lower)
        · exact .inl met
        · exact .inr ⟨inCc, some_, other, met⟩

theorem replyTarget_single {src : AnswerSource}
    (singles : Singles [src.from_, src.replyTo]) :
    let target := (replyAddress src.from_ src.replyTo).target
    target = [] ∨ IsEntry target := by
  have known : ∀ addr ∈ [src.from_, src.replyTo], trim addr = [] ∨ IsEntry (trim addr) := singles
  unfold replyAddress
  dsimp only
  split_ifs
  · exact known _ List.mem_cons_self
  · exact known _ (List.mem_cons_of_mem _ List.mem_cons_self)

/-- Other mail is answered to its reply target, and all others get a copy. -/
theorem everyoneOnce_other {src : AnswerSource} {own : List Char}
    (singles : Singles (src.from_ :: src.replyTo :: (src.to_ ++ src.cc)))
    (none_ : ownMailRecipients lower src own = none) (trimmed : trim own = own)
    {draft : AnswerDraft} (names : draft.to_ = (replyAddress src.from_ src.replyTo).target)
    (copies : draft.cc = replyAllCc lower src draft.to_ [own, draft.from_]) :
    EveryoneOnce lower src own draft := by
  obtain ⟨first, second, rest⟩ : (trim src.from_ = [] ∨ IsEntry (trim src.from_)) ∧
      (trim src.replyTo = [] ∨ IsEntry (trim src.replyTo)) ∧ Singles (src.to_ ++ src.cc) := by
    obtain ⟨first, later⟩ := List.forall_mem_cons.mp singles
    exact ⟨first, List.forall_mem_cons.mp later⟩
  have target : draft.to_ = [] ∨ IsEntry draft.to_ := by
    rw [names]
    exact replyTarget_single (List.forall_mem_cons.mpr ⟨first, List.forall_mem_singleton.mpr second⟩)
  have readTo : addresses draft.to_ = if draft.to_ = [] then [] else [draft.to_] := by
    split_ifs with blank
    · rw [blank]
      rfl
    · exact (addresses_of_isEntry (target.resolve_left blank)).2
  have people : Singles (src.from_ :: (src.to_ ++ src.cc)) :=
    List.forall_mem_cons.mpr ⟨first, rest⟩
  let seen := [addressKey lower draft.to_, lower.apply own, lower.apply (trim draft.from_)]
  have readCc : addresses draft.cc =
      (uniqueAddrs lower (src.from_ :: (src.to_ ++ src.cc)) seen).1 := by
    rw [copies, replyAllCc, List.map_cons, List.map_singleton, trimmed]
    exact addresses_joined fun entry => isEntry_of_mem_uniqueAddrs people
  have inTo {key : List Char} : key ∈ (addresses draft.to_).map (addressKey lower) ↔
      draft.to_ ≠ [] ∧ key = addressKey lower draft.to_ := by
    rw [readTo]
    split_ifs with blank <;> simp [blank]
  have inCc {key : List Char} : key ∈ (addresses draft.cc).map (addressKey lower) ↔
      key ∈ (participants lower src own).map (addressKey lower) ∧ key ≠ [] ∧ key ∉ seen := by
    have others : (ownMailRecipients lower src own).isSome = false := by rw [none_]; rfl
    rw [readCc, mem_keys_uniqueAddrs, participants, others, if_neg Bool.false_ne_true]
  refine ⟨?_, fun _ => readTo, fun key => ?_⟩
  · rw [reached, List.map_append]
    refine List.Nodup.append ?_ ?_ fun key named copied => ?_
    · rw [readTo]
      split_ifs
      · exact List.nodup_nil
      · exact List.nodup_singleton _
    · rw [readCc]
      exact nodup_uniqueAddrs _ _
    · rw [(inTo.mp named).2] at copied
      exact (inCc.mp copied).2.2 List.mem_cons_self
  · rw [reached, List.map_append, List.mem_append, inTo, inCc]
    simp only [seen, List.mem_cons, List.not_mem_nil, or_false, not_or]
    constructor
    · rintro (⟨some_, same⟩ | ⟨listed, some_, -, notOwn, notFrom⟩)
      · exact .inl ⟨none_, some_, same⟩
      · exact .inr ⟨listed, some_, notOwn, notFrom⟩
    · rintro (⟨-, some_, same⟩ | ⟨listed, some_, notOwn, notFrom⟩)
      · exact .inl ⟨some_, same⟩
      · by_cases same : key = addressKey lower draft.to_
        · refine .inl ⟨fun blank => some_ ?_, same⟩
          rw [same, blank]
          exact apply_nil lower
        · exact .inr ⟨listed, some_, same, notOwn, notFrom⟩

end Everyone

/-- A list mail from someone who wants the answers elsewhere, copied to them and to
the user. -/
def Sample.circular : AnswerSource where
  from_ := "ann@out.org".toList
  fromName := "Ann".toList
  to_ := ["Team <team@home.org>".toList, "ANN@out.org".toList]
  cc := ["me@home.org".toList, "bob@home.org".toList, "Team@home.org".toList]
  envelopeTo := ["me@home.org".toList]
  replyTo := "list@out.org".toList
  subject := "Plan".toList
  date := []
  isHtml := false
  bodyHtml := []
  bodyText := "When?".toList

def Sample.mine : AnswerOptions :=
  ⟨"me@home.org".toList, none, false⟩

def Sample.lower : ToLowercase isWhitespace :=
  ToLowercase.ascii _ fun _ first last => isWhitespace_letter first last

section Carried

theorem trim_typedBlock (block : List Char) :
    pieces isWhitespace '\n' (strip (· = '\n') block) = pieces isWhitespace '\n' block := by
  refine Text.pieces_strip (fun letter dropped => ?_) block
  rw [of_decide_eq_true dropped]
  rfl

/-- No typed line is lost with the blank blocks. -/
theorem leftOf_typedBlocks (text : List Char) :
    leftOf isWhitespace (typedBlocks text).flatten = shownLines (withLf text) := by
  have kept (blocks : List (List Char)) :
      (((blocks.map (strip (· = '\n'))).filter fun block => trim block ≠ []).map fun block =>
        pieces isWhitespace '\n' block).flatten =
        (blocks.map (pieces isWhitespace '\n')).flatten := by
    induction blocks with
    | nil => rfl
    | cons block blocks inductionHypothesis =>
        rw [List.map_cons, List.map_cons, List.flatten_cons, ← inductionHypothesis,
          ← trim_typedBlock block]
        by_cases blank : trim (strip (· = '\n') block) = []
        · have nothing : pieces isWhitespace '\n' (strip (· = '\n') block) = [] := by
            have same : pieces isWhitespace '\n' (trim (strip (· = '\n') block)) = _ :=
              Text.pieces_strip (fun _ => id) _
            rw [← same, blank, Text.pieces_nil]
          rw [List.filter_cons_of_neg (by simp [blank]), nothing, List.nil_append]
        · rw [List.filter_cons_of_pos (by simp [blank]), List.map_cons, List.flatten_cons]
  rw [Text.leftOf_flatten, typedBlocks, List.map_map, shownLines,
    ← Text.pieces_segments (withLf text)]
  exact kept _

/-- The paragraphs that stand for a typed text. -/
def textBlocks (text : List Char) : List (List (List Char)) :=
  if typedBlocks text = [] then [[[], []]] else typedBlocks text

theorem textHtml_eq (text : List Char) : textHtml text = paragraphs (textBlocks text) := by
  rw [textHtml, textBlocks]
  split_ifs <;> rfl

theorem leftOf_textBlocks (text : List Char) :
    leftOf isWhitespace (textBlocks text).flatten = shownLines (withLf text) := by
  rw [← leftOf_typedBlocks, textBlocks]
  split_ifs with blank
  · rw [blank]
    rfl
  · rfl

theorem lined_textBlocks (text : List Char) : Lined (textBlocks text) := by
  intro lines member line inside
  unfold textBlocks at member
  split_ifs at member
  · obtain rfl := List.mem_singleton.mp member
    obtain rfl : line = [] := by simpa using inside
    exact List.not_mem_nil
  · obtain ⟨block, -, rfl⟩ := List.mem_map.mp member
    exact Text.notMem_of_mem_splitOn inside

/-- The paragraph of the signature. -/
def signatureBlocks (opts : AnswerOptions) : List (List (List Char)) :=
  let lines := (opts.signature.map trimmedLines).getD []
  if lines = [] then [] else ["-- ".toList :: lines]

theorem signature_eq (opts : AnswerOptions) :
    (AnswerDraft.signature opts).1 = paragraphs (signatureBlocks opts) := by
  rw [AnswerDraft.signature, signatureBlocks]
  split_ifs with blank
  · rfl
  · obtain ⟨line, lines, shape⟩ := List.exists_cons_of_ne_nil blank
    rw [shape, paragraphs, List.flatMap_singleton, paragraph, List.map_cons, List.map_cons,
      List.map_cons, List.intercalate_cons_cons]
    rfl

theorem lined_signatureBlocks (opts : AnswerOptions) : Lined (signatureBlocks opts) := by
  intro lines member line inside
  unfold signatureBlocks at member
  dsimp only at member
  split_ifs at member with blank
  · cases member
  · obtain rfl := List.mem_singleton.mp member
    rcases List.mem_cons.mp inside with rfl | inside
    · decide
    · cases set : opts.signature with
      | none =>
          rw [set] at inside
          cases inside
      | some text =>
          rw [set] at inside
          exact Text.notMem_of_mem_lines ((List.dropWhile_sublist _).subset
            ((List.rdropWhile_prefix _ _).subset inside))

/-- The paragraphs of a plain original under its header. -/
def quoteBlocks (header : List Char) (src : AnswerSource) : List (List (List Char)) :=
  let text := if trim src.bodyText = [] then htmlToText src.bodyHtml else src.bodyText
  [lines header, (lines (text.rdropWhile isWhitespace)).map ("> ".toList ++ ·)]

theorem quote_eq {src : AnswerSource} (plain : quotesHtml src = false) (header : List Char) :
    quote header src = paragraphs (quoteBlocks header src) := by
  rw [quote, plain, if_neg Bool.false_ne_true, quoteBlocks]
  dsimp only
  generalize lines (List.rdropWhile isWhitespace _) = cited
  have escaped : cited.map (fun line => "&gt; ".toList ++ escapeText line) =
      (cited.map ("> ".toList ++ ·)).map escapeText := by
    rw [List.map_map]
    rfl
  rw [escaped, paragraphs, List.flatMap_cons, List.flatMap_singleton, paragraph, paragraph]
  simp only [List.append_assoc]

theorem lined_quoteBlocks (header : List Char) (src : AnswerSource) :
    Lined (quoteBlocks header src) := by
  intro block member line inside
  rcases List.mem_pair.mp member with rfl | rfl
  · exact Text.notMem_of_mem_lines inside
  · obtain ⟨cited, among, rfl⟩ := List.mem_map.mp inside
    rw [List.mem_append, not_or]
    exact ⟨by decide, Text.notMem_of_mem_lines among⟩

/-- Who is quoted, or what is forwarded. -/
def answerHeader (src : AnswerSource) (mode : AnswerMode) : List Char :=
  if mode = .forward then
    "— Forwarded message —\nFrom: ".toList ++ senderText src ++ "\nDate: ".toList ++
      src.date ++ "\nSubject: ".toList ++ src.subject
  else "On ".toList ++ src.date ++ ", ".toList ++ senderText src ++ " wrote:".toList

/-- Whether the quote stands above what is typed. -/
def quotedFirst (mode : AnswerMode) (opts : AnswerOptions) : Bool :=
  opts.replyBelowQuote && mode ≠ .forward

/-- The paragraphs of a whole answer to a plain original. -/
def answerBlocks (src : AnswerSource) (mode : AnswerMode) (opts : AnswerOptions)
    (text : List Char) : List (List (List Char)) :=
  let quoted := quoteBlocks (answerHeader src mode) src
  let typed := textBlocks text ++ signatureBlocks opts
  if quotedFirst mode opts then quoted ++ ["---".toList] :: typed
  else typed ++ ["---".toList] :: quoted

/-- What is read of it: the typed lines, then the signature, then the original under
its header, or the original first. -/
def answerLines (src : AnswerSource) (mode : AnswerMode) (opts : AnswerOptions)
    (text : List Char) : List (List Char) :=
  let quoted := leftOf isWhitespace (quoteBlocks (answerHeader src mode) src).flatten
  let typed := shownLines (withLf text) ++ leftOf isWhitespace (signatureBlocks opts).flatten
  if quotedFirst mode opts then quoted ++ "---".toList :: typed
  else typed ++ "---".toList :: quoted

section Arrive

variable {lower : ToLowercase isWhitespace} {src : AnswerSource}

theorem paragraphs_append (first second : List (List (List Char))) :
    paragraphs (first ++ second) = paragraphs first ++ paragraphs second :=
  List.flatMap_append

theorem paragraphs_cons (lines : List (List Char)) (blocks : List (List (List Char))) :
    paragraphs (lines :: blocks) = paragraph lines ++ paragraphs blocks :=
  List.flatMap_cons

theorem answerDraft_parts (mode : AnswerMode) (opts : AnswerOptions) :
    let draft := answerDraft lower src mode opts
    let inner := quote (answerHeader src mode) src
    draft.quoteFirst = quotedFirst mode opts ∧ draft.signatureHtml = (AnswerDraft.signature opts).1 ∧
      draft.quoteHtml =
        if quotedFirst mode opts then inner ++ separator src else separator src ++ inner := by
  by_cases forward : mode = .forward
  · simp [answerDraft, answerHeader, quotedFirst, forward]
  · by_cases below : opts.replyBelowQuote = true <;>
      simp [answerDraft, answerHeader, quotedFirst, forward, below]

theorem withText_eq (plain : quotesHtml src = false) (mode : AnswerMode) (opts : AnswerOptions)
    (text : List Char) :
    (answerDraft lower src mode opts).withText text =
      paragraphs (answerBlocks src mode opts text) := by
  have separated : separator src = paragraph ["---".toList] := by
    rw [separator, plain, if_neg Bool.false_ne_true]
    rfl
  obtain ⟨first, signed, quoted⟩ := @answerDraft_parts lower src mode opts
  rw [AnswerDraft.withText, answerBlocks, first, signed, quoted]
  rw [quote_eq plain, separated, signature_eq, textHtml_eq]
  cases quotedFirst mode opts <;>
    simp only [Bool.false_eq_true, if_false, if_true, paragraphs_append, paragraphs_cons,
      List.append_assoc]

theorem lined_append {first second : List (List (List Char))} (here : Lined first)
    (later : Lined second) : Lined (first ++ second) := by
  intro lines member
  exact (List.mem_append.mp member).elim (here lines) (later lines)

theorem lined_answerBlocks (src : AnswerSource) (mode : AnswerMode) (opts : AnswerOptions)
    (text : List Char) : Lined (answerBlocks src mode opts text) := by
  have typed := lined_append (lined_textBlocks text) (lined_signatureBlocks opts)
  have quoted := lined_quoteBlocks (answerHeader src mode) src
  have rule : Lined [["---".toList]] := by unfold Lined; decide
  unfold answerBlocks
  dsimp only
  split_ifs
  · exact lined_append quoted (lined_append rule typed)
  · exact lined_append typed (lined_append rule quoted)

theorem leftOf_answerBlocks (src : AnswerSource) (mode : AnswerMode) (opts : AnswerOptions)
    (text : List Char) :
    leftOf isWhitespace (answerBlocks src mode opts text).flatten =
      answerLines src mode opts text := by
  have rule : leftOf isWhitespace ["---".toList] = ["---".toList] := by decide
  have ruled (blocks : List (List (List Char))) :
      leftOf isWhitespace ((["---".toList] :: blocks).flatten) =
        "---".toList :: leftOf isWhitespace blocks.flatten := by
    rw [List.flatten_cons, Text.leftOf_append, rule]
    rfl
  unfold answerBlocks answerLines
  dsimp only
  split_ifs
  · rw [List.flatten_append, Text.leftOf_append, ruled, List.flatten_append, Text.leftOf_append,
      leftOf_textBlocks]
  · rw [List.flatten_append, Text.leftOf_append, ruled, List.flatten_append, Text.leftOf_append,
      leftOf_textBlocks]

theorem answerLines_ne_nil (src : AnswerSource) (mode : AnswerMode) (opts : AnswerOptions)
    (text : List Char) : answerLines src mode opts text ≠ [] := by
  unfold answerLines
  dsimp only
  split_ifs <;> simp

/-- An answer to a plain original arrives whole: every line that was typed, the
signature and the original, in each part, and as plain text where the format is left
to the content. -/
theorem answer_arrives (isAlphanumeric : Char → Bool) (lower : ToLowercase isWhitespace)
    {src : AnswerSource} (plain : quotesHtml src = false) (mode : AnswerMode)
    (opts : AnswerOptions) (text : List Char)
    (short : byteLen ((answerDraft lower src mode opts).withText text) ≤ MAX_HTML_BYTES)
    (few : ((answerBlocks src mode opts text).flatMap paragraphText).count '\n' < MAX_TEXT_LINES)
    (fresh : Nat → List Char) (domain : List Char) (wanted : Export.SendFormat)
    (includePlain : Bool) :
    ∃ out, outgoingBodies isAlphanumeric fresh domain
        (trim ((answerDraft lower src mode opts).withText text)) none wanted includePlain =
        .ok out ∧
      out.format = effectiveFormat wanted false includePlain ∧ out.inlines = [] ∧
      Carries out (answerLines src mode opts text) := by
  rw [withText_eq plain] at short ⊢
  rw [trim_paragraphs, ← leftOf_answerBlocks]
  have fits : Fits (answerBlocks src mode opts text) :=
    ⟨lined_answerBlocks src mode opts text, short, few⟩
  refine outgoingBodies_paragraphs fits ?_ .body fresh domain wanted includePlain
  rw [leftOf_answerBlocks]
  exact answerLines_ne_nil src mode opts text

/-- The editor starts with the answer to nothing typed. -/
theorem bodyHtml_answerDraft (src : AnswerSource) (mode : AnswerMode) (opts : AnswerOptions) :
    (answerDraft lower src mode opts).bodyHtml =
      (answerDraft lower src mode opts).withText [] := by
  have nothing : textHtml [] = TEXT_SLOT := rfl
  by_cases forward : mode = .forward
  · simp [answerDraft, AnswerDraft.withText, forward, nothing]
  · by_cases below : opts.replyBelowQuote = true <;>
      simp [answerDraft, AnswerDraft.withText, forward, below, nothing]

end Arrive

end Carried

theorem answer_arrives_sample :
    let opts : AnswerOptions := ⟨"me@home.org".toList, some "Max\n".toList, true⟩
    ∃ out, outgoingBodies Char.isAlphanum (fun _ => []) "home.org".toList
        (trim ((answerDraft Sample.lower Sample.circular .reply opts).withText
          "Friday?\r\n\r\n1 < 2".toList)) none .auto true = .ok out ∧
      out.format = .plain ∧ out.inlines = [] ∧
      Carries out ["On , Ann <ann@out.org> wrote:".toList, "> When?".toList, "---".toList,
        "Friday?".toList, "1 < 2".toList, "--".toList, "Max".toList] :=
  answer_arrives Char.isAlphanum Sample.lower (by decide) .reply
    ⟨"me@home.org".toList, some "Max\n".toList, true⟩ "Friday?\r\n\r\n1 < 2".toList
    (by decide) (by decide) (fun _ => []) "home.org".toList .auto true

end Compose
end Mailcore

import Mailcore.Html.Gate
import Mathlib.Data.Bool.AllAny

/-!
# The host of a remote image

Where the gate finds the authority of a URL whose entities it decodes once
more, where a browser finds it, and what the gate promises of the host a
browser connects to.
-/

namespace Mailcore
namespace Html

open Text (asciiLower strip afterLast splitOnceAt Stops)
open Browser

/-! ## The authority as the gate cuts it -/

/-- What stands behind the slashes that follow the scheme. -/
def behindSlashes (url : List Char) : List Char :=
  (url.dropWhile (· != ':')).tail.dropWhile (· = '/')

def authorityOf (url : List Char) : List Char :=
  (behindSlashes url).takeWhile inAuthority

def hostPortOf (url : List Char) : List Char :=
  afterLast '@' (authorityOf url)

/-- An authority without the spellings that browsers read in a way of their
own: controls, blanks and backslashes, and in its host escapes, letters beyond
ASCII, and a port that is announced but missing. -/
structure PlainlyWritten (url : List Char) : Prop where
  unbroken : ∀ char ∈ authorityOf url, 0x20 < char.toNat ∧ char ≠ '\\'
  literal : ∀ char ∈ hostPortOf url, char.toNat < 0x80 ∧ char ≠ '%'
  port : (hostPortOf url).getLast? ≠ some ':'

/-- No part of the host is written with a leading zero, as octal and
hexadecimal numbers are. -/
def DecimalHost (url : List Char) : Prop :=
  ∀ part ∈ labels (asciiLower ((hostPortOf url).takeWhile (· != ':'))), PlainPart part

instance (url : List Char) : Decidable (DecimalHost url) :=
  inferInstanceAs (Decidable (∀ part ∈ _, PlainPart part))

/-! ## The authority as a browser cuts it -/

theorem mem_of_outside {char : Char} (outside : inAuthority char = false) :
    char ∈ ['/', '?', '#'] := by
  rw [inAuthority, Bool.not_eq_false', List.contains_eq_mem, decide_eq_true_eq] at outside
  exact outside

theorem input_append
    {front rest : List Char}
    (bare : ∀ char ∈ front, 0x20 < char.toNat)
    (nonempty : front ≠ []) :
    input (front ++ rest) =
      front ++ (rest.rdropWhile isC0OrSpace).filter fun char => !isTabOrNewline char := by
  have unmarked : ∀ char ∈ front, isC0OrSpace char = false := by
    intro char member
    simpa [isC0OrSpace] using bare char member
  have kept : front.filter (fun char => !isTabOrNewline char) = front := by
    rw [List.filter_eq_self]
    intro char member
    have high := bare char member
    simp only [isTabOrNewline, Bool.not_eq_true', Bool.or_eq_false_iff,
      decide_eq_false_iff_not]
    refine ⟨⟨?_, ?_⟩, ?_⟩
    all_goals
      rintro rfl
      exact absurd high (by decide)
  rw [input, Text.strip_append
      (fun char first => unmarked char (List.mem_of_head? first))
      (fun char last => unmarked char (List.mem_of_getLast? last)) nonempty,
    List.filter_append, kept]

/-- Behind an authority, stripping and filtering leave the delimiter. -/
theorem head?_filter_rdropWhile
    {rest : List Char}
    (stops : Stops inAuthority rest) :
    ((rest.rdropWhile isC0OrSpace).filter fun char => !isTabOrNewline char).head? =
      rest.head? := by
  cases rest with
  | nil => rfl
  | cons first rest =>
      have delimiter := mem_of_outside (Text.stops_cons.mp stops)
      have visible : isC0OrSpace first = false ∧ isTabOrNewline first = false :=
        (List.all_iff_forall_prop.mp (by decide) : ∀ char ∈ ['/', '?', '#'],
          isC0OrSpace char = false ∧ isTabOrNewline char = false) first delimiter
      have apart := Text.rdropWhile_append
        (show ∀ char ∈ [first].getLast?, isC0OrSpace char = false by
          simpa using visible.1) rest
      rw [List.singleton_append] at apart
      rw [apart, List.singleton_append, List.filter_cons, visible.2]
      rfl

theorem http_or_https_of_isHttpUrl
    {url : List Char}
    (trimmed : trim url = url)
    (http : isHttpUrl url = true) :
    ∃ scheme rest, url = scheme ++ ':' :: rest ∧ ':' ∉ scheme ∧
      (asciiLower scheme = "http".toList ∨ asciiLower scheme = "https".toList) := by
  unfold isHttpUrl schemeOf at http
  simp only [trimmed] at http
  split_ifs at http with colon
  · refine ⟨url.takeWhile (· != ':'), (url.dropWhile (· != ':')).tail, ?_, ?_, ?_⟩
    · have behind : url.dropWhile (· != ':') =
          ':' :: (url.dropWhile (· != ':')).tail := by
        cases found : url.dropWhile (· != ':') with
        | nil =>
            rw [List.dropWhile_eq_nil_iff] at found
            exact absurd (found ':' colon) (by decide)
        | cons first rest =>
            have stops := Text.stops_dropWhile (· != ':') url
            rw [found, Text.stops_cons] at stops
            rw [List.tail_cons]
            congr 1
            simpa using stops
      rw [← behind, List.takeWhile_append_dropWhile]
    · intro member
      exact absurd (List.mem_takeWhile_imp member) (by decide)
    · simpa using http
  · exact absurd http (by decide)

/-- The letters of the schemes browsers connect for. -/
theorem letters_of_scheme
    {scheme : List Char}
    (http : asciiLower scheme = "http".toList ∨ asciiLower scheme = "https".toList) :
    scheme ≠ [] ∧ ∀ char ∈ scheme, 0x40 < char.toNat ∧ char.toNat < 0x80 := by
  refine ⟨by rintro rfl; rcases http with http | http <;> exact absurd http (by decide), ?_⟩
  intro char member
  have within : char.toLower ∈ asciiLower scheme := List.mem_map_of_mem member
  have small : ∀ letter ∈ "https".toList, 97 ≤ letter.toNat ∧ letter.toNat < 0x80 :=
    List.all_iff_forall_prop.mp (by decide)
  have bounds : 97 ≤ char.toLower.toNat ∧ char.toLower.toNat < 0x80 := by
    rcases http with http | http
    · rw [http] at within
      exact small _ ((by decide : "http".toList ⊆ "https".toList) within)
    · rw [http] at within
      exact small _ within
  rcases Text.toNat_toLower char with ⟨lower, upper, _⟩ | ⟨_, same⟩
  · omega
  · rw [same] at bounds
    omega

section

variable {scheme rest : List Char}

/-- What stands behind the colon of a scheme. -/
theorem behindSlashes_append (colonless : ':' ∉ scheme) :
    behindSlashes (scheme ++ ':' :: rest) = rest.dropWhile (· = '/') := by
  rw [behindSlashes, Text.dropWhile_ne_append colonless, List.tail_cons]

/-- A URL with its scheme, slashes and authority told apart. -/
theorem exists_eq_append
    {url : List Char}
    (trimmed : trim url = url)
    (http : isHttpUrl url = true) :
    ∃ scheme slashes tail,
      url = (scheme ++ ':' :: slashes ++ authorityOf url) ++ tail ∧
      ':' ∉ scheme ∧
      (asciiLower scheme = "http".toList ∨ asciiLower scheme = "https".toList) ∧
      (∀ char ∈ slashes, char = '/') ∧
      Stops (· = '/') (authorityOf url ++ tail) ∧
      Stops inAuthority tail := by
  obtain ⟨scheme, rest, same, colonless, named⟩ :=
    http_or_https_of_isHttpUrl trimmed http
  have behind : behindSlashes url = rest.dropWhile (· = '/') := by
    rw [same, behindSlashes_append colonless]
  refine ⟨scheme, rest.takeWhile (· = '/'),
    (behindSlashes url).dropWhile inAuthority, ?_, colonless, named, ?_, ?_, ?_⟩
  · rw [authorityOf, List.append_assoc, List.takeWhile_append_dropWhile, behind,
      List.append_assoc, List.cons_append, List.takeWhile_append_dropWhile, ← same]
  · intro char member
    simpa using List.mem_takeWhile_imp member
  · rw [authorityOf, List.takeWhile_append_dropWhile, behind]
    exact Text.stops_dropWhile _ _
  · exact Text.stops_dropWhile _ _

/-- A browser finds the authority where the gate would. -/
theorem connectsTo_eq
    (toAscii : List Char → Option (List Char))
    {url : List Char}
    (trimmed : trim url = url)
    (http : isHttpUrl url = true)
    (plain : PlainlyWritten url) :
    connectsTo toAscii url = authorityHost toAscii (hostPortOf url) := by
  obtain ⟨scheme, slashes, tail, same, colonless, named, allSlashes, first, stops⟩ :=
    exists_eq_append trimmed http
  obtain ⟨nonempty, letters⟩ := letters_of_scheme named
  generalize host : authorityOf url = authority at *
  have unbroken : ∀ char ∈ authority, 0x20 < char.toNat ∧ char ≠ '\\' := by
    rw [← host]
    exact plain.unbroken
  have within : ∀ char ∈ authority, inAuthority char := by
    rw [← host]
    exact fun char member => List.mem_takeWhile_imp member
  have bare : ∀ char ∈ scheme ++ ':' :: slashes ++ authority, 0x20 < char.toNat := by
    intro char member
    simp only [List.mem_append, List.mem_cons] at member
    rcases member with (member | rfl | member) | member
    · exact Nat.lt_trans (by decide) (letters char member).1
    · decide
    · rw [allSlashes char member]
      decide
    · exact (unbroken char member).1
  have read : input ((scheme ++ ':' :: slashes ++ authority) ++ tail) = _ :=
    input_append bare (by simp)
  have head := head?_filter_rdropWhile stops
  generalize (tail.rdropWhile isC0OrSpace).filter (fun char => !isTabOrNewline char) =
    tail' at read head
  have noSlash : Stops isSlash (authority ++ tail') := by
    intro char begins
    have plainly : char ∈ (authority ++ tail).head? := by
      rw [List.head?_append, ← head, ← List.head?_append]
      exact begins
    have notSlash : char ≠ '/' := by simpa using first char plainly
    have notBack : char ≠ '\\' := by
      rintro rfl
      cases authority with
      | nil => exact absurd (stops _ (by simpa using plainly)) (by decide)
      | cons other authority =>
          obtain rfl : other = '\\' := by simpa using plainly
          exact (unbroken _ List.mem_cons_self).2 rfl
    simp [isSlash, notSlash, notBack]
  have inner : ∀ char, inBrowserAuthority char = (inAuthority char && char != '\\') := by
    intro char
    by_cases slash : char = '/'
    · subst slash
      decide
    · by_cases back : char = '\\'
      · subst back
        decide
      · simp [inBrowserAuthority, inAuthority, isSlash, slash, back]
  have ends : Stops inBrowserAuthority tail' := by
    intro char begins
    rw [inner, stops char (by rwa [head] at begins), Bool.false_and]
  have unslashed : (slashes ++ (authority ++ tail')).dropWhile isSlash =
      authority ++ tail' := by
    refine Text.dropWhile_append_of_stops (fun char member => ?_) noSlash
    rw [allSlashes char member]
    decide
  have cut : (authority ++ tail').takeWhile inBrowserAuthority = authority := by
    refine Text.takeWhile_append_of_stops (fun char member => ?_) ends
    rw [inner, within char member, Bool.true_and, bne_iff_ne]
    exact (unbroken char member).2
  have whole : input url = scheme ++ ':' :: (slashes ++ (authority ++ tail')) := by
    rw [same, read]
    simp
  simp only [connectsTo, whole, Text.takeWhile_ne_append colonless,
    Text.dropWhile_ne_append colonless, List.tail_cons, unslashed, cut]
  rw [if_pos ⟨by simp, named⟩, hostPortOf, host]

end

/-! ## The second decoding -/

/-- No entity but a numeric one decodes to a delimiter of URLs, and the names
of the others are letters and digits. -/
def Harmless (name : List Char) (char : Char) : Prop :=
  name.head? = some '#' ∨
    ((∀ letter ∈ name, letter.isAlphanum) ∧ inAuthority char = true)

instance (name : List Char) (char : Char) : Decidable (Harmless name char) :=
  decidable_of_iff (name.head? = some '#' ∨
      (name.all Char.isAlphanum = true ∧ inAuthority char = true)) (by
    rw [List.all_eq_true]
    exact Iff.rfl)

theorem harmless_spelledOut :
    ∀ entry ∈ spelledOut, Harmless (entry.1.toList.tail.dropLast) entry.2 := by
  decide +kernel

theorem harmless_NAMED :
    ∀ entry ∈ NAMED, Harmless entry.1.toList entry.2 := by
  decide +kernel

theorem mem_of_lookup
    {table : List (String × Char)} {key : String} {char : Char}
    (found : table.lookup key = some char) :
    (key, char) ∈ table := by
  obtain ⟨front, back, rfl, _⟩ := List.lookup_eq_some_iff.mp found
  simp

theorem harmless_of_entityChar
    {name : List Char} {char : Char}
    (meaning : entityChar name = some char) :
    Harmless name char := by
  unfold entityChar at meaning
  cases spelled : spelledOut.lookup (String.ofList ('&' :: name ++ [';'])) with
  | some decoded =>
      rw [spelled, Option.some_or, Option.some_or, Option.some.injEq] at meaning
      subst meaning
      simpa using harmless_spelledOut _ (mem_of_lookup spelled)
  | none =>
      cases inTable : named name with
      | some decoded =>
          rw [spelled, inTable, Option.none_or, Option.some_or,
            Option.some.injEq] at meaning
          subst meaning
          simpa using harmless_NAMED _ (mem_of_lookup inTable)
      | none =>
          left
          rw [spelled, inTable, Option.none_or, Option.none_or] at meaning
          split at meaning
          · rfl
          · cases meaning

/-- An entity that begins in user info ends in front of its `@`. -/
theorem userInfo_of_entityAt
    {user rest : List Char} {char : Char} {length : Nat}
    (within : ∀ char ∈ user, inAuthority char)
    (nonempty : user ≠ [])
    (ends : user.getLast? = some '@')
    (entity : entityAt (user ++ rest) = some (char, length)) :
    inAuthority char = true ∧ ∃ front shorter, user = front ++ shorter ∧
      shorter.getLast? = some '@' ∧ (user ++ rest).drop length = shorter ++ rest := by
  obtain ⟨name, meaning, spans⟩ := eq_append_of_entityAt entity
  rcases harmless_of_entityChar meaning with numeric | ⟨letters, safe⟩
  · obtain ⟨first, others, rfl⟩ := List.exists_cons_of_ne_nil nonempty
    have hash : first = '#' := by
      cases name with
      | nil => simp at numeric
      | cons letter name =>
          obtain rfl : letter = '#' := by simpa using numeric
          exact (List.cons.inj spans).1
    subst hash
    exact absurd (within '#' List.mem_cons_self) (by decide)
  · refine ⟨safe, ?_⟩
    rw [List.append_cons] at spans
    have noAt : '@' ∉ name ++ [';'] := by
      intro member
      rcases List.mem_append.mp member with member | member
      · exact absurd (letters '@' member) (by decide)
      · exact absurd (List.mem_singleton.mp member) (by decide)
    rcases List.append_eq_append_iff.mp spans with
      ⟨more, covered, _⟩ | ⟨shorter, split, dropped⟩
    · exact absurd (covered ▸ List.mem_append_left _ (List.mem_of_getLast? ends)) noAt
    · refine ⟨name ++ [';'], shorter, split, ?_, dropped⟩
      rw [split, List.getLast?_append] at ends
      cases final : shorter.getLast? with
      | some other => rwa [final, Option.some_or] at ends
      | none => simp [final] at ends

/-- User info is decoded for itself: it keeps its `@` at the end and gets no
delimiter. -/
theorem decodeEntities_userInfo
    {user : List Char}
    (within : ∀ char ∈ user, inAuthority char)
    (ends : ∀ char ∈ user.getLast?, char = '@')
    (rest : List Char) :
    ∃ decoded, decodeEntities (user ++ rest) = decoded ++ decodeEntities rest ∧
      (∀ char ∈ decoded, inAuthority char) ∧
      decoded.getLast? = user.getLast? := by
  induction length : user.length using Nat.strongRecOn generalizing user with
  | ind length inductionHypothesis =>
      subst length
      cases user with
      | nil => exact ⟨[], rfl, by simp, rfl⟩
      | cons char user =>
          have first := within char List.mem_cons_self
          have others : ∀ char ∈ user, inAuthority char :=
            fun char member => within char (List.mem_cons_of_mem _ member)
          have last : ∀ char ∈ user.getLast?, char = '@' := by
            intro other final
            refine ends other ?_
            cases user with
            | nil => simp at final
            | cons next user => rwa [List.getLast?_cons_cons]
          -- A character that is copied goes in front of what the rest becomes.
          have copied : ∀ decoded : List Char,
              decoded.getLast? = user.getLast? →
                (char :: decoded).getLast? = (char :: user).getLast? := by
            intro decoded same
            rw [List.getLast?_cons, List.getLast?_cons, same]
          by_cases amp : char = '&'
          · subst amp
            cases entity : entityAt (user ++ rest) with
            | none =>
                obtain ⟨decoded, same, inside, final⟩ :=
                  inductionHypothesis _ (Nat.lt_succ_self _) others last rfl
                refine ⟨'&' :: decoded, ?_, ?_, copied decoded final⟩
                · rw [List.cons_append, decodeEntities_bare entity, same]
                  rfl
                · exact List.forall_mem_cons.mpr ⟨first, inside⟩
            | some found =>
                obtain ⟨letter, length⟩ := found
                have filled : user ≠ [] := by
                  rintro rfl
                  exact absurd (ends '&' (by simp)) (by decide)
                have final : user.getLast? = some '@' := by
                  rw [List.getLast?_eq_some_getLast filled] at last ⊢
                  rw [last _ rfl]
                obtain ⟨safe, front, shorter, split, closed, dropped⟩ :=
                  userInfo_of_entityAt others filled final entity
                have less : shorter.length < ('&' :: user).length := by
                  rw [split, List.length_cons, List.length_append]
                  omega
                obtain ⟨decoded, same, inside, ending⟩ := inductionHypothesis _ less
                  (fun other member => others other
                    (split ▸ List.mem_append_right _ member))
                  (fun other found => (Option.some.inj (closed.symm.trans found)).symm)
                  rfl
                refine ⟨letter :: decoded, ?_, ?_, ?_⟩
                · rw [List.cons_append, decodeEntities_entity entity, dropped, same]
                  rfl
                · exact List.forall_mem_cons.mpr ⟨safe, inside⟩
                · rw [List.getLast?_cons, List.getLast?_cons, ending, closed, final]
                  rfl
          · obtain ⟨decoded, same, inside, final⟩ :=
              inductionHypothesis _ (Nat.lt_succ_self _) others last rfl
            refine ⟨char :: decoded, ?_, ?_, copied decoded final⟩
            · rw [List.cons_append, decodeEntities_cons amp, same]
              rfl
            · exact List.forall_mem_cons.mpr ⟨first, inside⟩

/-! ## The host the gate judges -/

theorem inAuthority_toLower (char : Char) :
    inAuthority char.toLower = inAuthority char := by
  simp only [inAuthority, List.contains_cons, List.contains_nil, Bool.or_false]
  congr 1
  have same : ∀ other ∈ ['/', '?', '#'], (char.toLower == other) = (char == other) := by
    intro other member
    have notLetter : ¬(65 ≤ other.toNat ∧ other.toNat ≤ 90) ∧
        ¬(97 ≤ other.toNat ∧ other.toNat ≤ 122) :=
      (List.all_iff_forall_prop.mp (by decide) : ∀ other ∈ ['/', '?', '#'],
        ¬(65 ≤ other.toNat ∧ other.toNat ≤ 90) ∧
          ¬(97 ≤ other.toNat ∧ other.toNat ≤ 122)) other member
    rw [Bool.eq_iff_iff, beq_iff_eq, beq_iff_eq, Text.toLower_eq_iff notLetter]
  rw [same '/' (by decide), same '?' (by decide), same '#' (by decide)]

theorem splitOnceAt_scheme
    {scheme : List Char}
    (named : asciiLower scheme = "http".toList ∨ asciiLower scheme = "https".toList)
    (rest : List Char) :
    splitOnceAt "://".toList (asciiLower scheme ++ "://".toList ++ rest) =
      some (asciiLower scheme, rest) := by
  rcases named with named | named
  · rw [named]
    rfl
  · rw [named]
    rfl

theorem isWhitespace_of_visible
    {char : Char}
    (high : 0x20 < char.toNat)
    (ascii : char.toNat < 0x80) :
    Outbox.isWhitespace char = false := by
  simp only [Outbox.isWhitespace, Bool.or_eq_false_iff, Bool.and_eq_false_iff,
    decide_eq_false_iff_not]
  omega

/-- A decoded tail begins as the tail does. -/
theorem stops_decoded_tail
    {tail : List Char}
    (stops : Stops inAuthority tail) :
    Stops inAuthority ((decodeEntities tail).rdropWhile Outbox.isWhitespace) := by
  cases tail with
  | nil => exact Text.stops_nil _
  | cons first tail =>
      have outside := Text.stops_cons.mp stops
      have plain : first ≠ '&' := by
        rintro rfl
        exact absurd outside (by decide)
      have visible : Outbox.isWhitespace first = false := by
        exact (List.all_iff_forall_prop.mp (by decide) :
          ∀ char ∈ ['/', '?', '#'], Outbox.isWhitespace char = false)
            first (mem_of_outside outside)
      have apart := Text.rdropWhile_append
        (show ∀ char ∈ [first].getLast?, Outbox.isWhitespace char = false by
          simpa using visible) (decodeEntities tail)
      rw [List.singleton_append] at apart
      rw [decodeEntities_cons plain, apart, List.singleton_append]
      exact Text.stops_cons.mpr outside

/-- With its two slashes in place, the gate judges the host and port that stand
behind the user info, in lower case. -/
theorem httpHost_eq
    {scheme authority tail : List Char}
    (named : asciiLower scheme = "http".toList ∨ asciiLower scheme = "https".toList)
    (within : ∀ char ∈ authority, inAuthority char)
    (visible : ∀ char ∈ authority, 0x20 < char.toNat)
    (literal : ∀ char ∈ afterLast '@' authority, char.toNat < 0x80)
    (entityless : '&' ∉ afterLast '@' authority)
    (stops : Stops inAuthority tail) :
    httpHost (asciiLower (urldecodeTrim
        (scheme ++ "://".toList ++ (authority ++ tail)))) =
      some (hostOf (asciiLower (afterLast '@' authority))) := by
  obtain ⟨nonempty, letters⟩ := letters_of_scheme named
  obtain ⟨user, split, ends⟩ := Text.exists_append_afterLast '@' authority
  have noAt := Text.notMem_afterLast '@' authority
  generalize afterLast '@' authority = hostPort at *
  subst split
  have endsAt : ∀ char ∈ user.getLast?, char = '@' := by
    rcases ends with rfl | ends
    · simp
    · simp [ends]
  obtain ⟨decoded, same, inside, closed⟩ := decodeEntities_userInfo
    (fun char member => within char (List.mem_append_left _ member)) endsAt
    (hostPort ++ tail)
  have noAmp : '&' ∉ scheme ++ "://".toList := by
    intro member
    rcases List.mem_append.mp member with member | member
    · exact absurd (letters '&' member).1 (by decide)
    · exact absurd member (by decide)
  have decodedUrl : decodeEntities
      (scheme ++ "://".toList ++ (user ++ hostPort ++ tail)) =
        (scheme ++ "://".toList ++ (decoded ++ hostPort)) ++ decodeEntities tail := by
    rw [decodeEntities_append noAmp, List.append_assoc user, same,
      decodeEntities_append entityless]
    simp only [List.append_assoc]
  have firstBare : Stops Outbox.isWhitespace
      (scheme ++ "://".toList ++ (decoded ++ hostPort)) := by
    obtain ⟨first, scheme, rfl⟩ := List.exists_cons_of_ne_nil nonempty
    obtain ⟨high, ascii⟩ := letters first List.mem_cons_self
    exact Text.stops_cons.mpr
      (isWhitespace_of_visible (Nat.lt_trans (by decide) high) ascii)
  have lastBare : ∀ char ∈ (scheme ++ "://".toList ++ (decoded ++ hostPort)).getLast?,
      Outbox.isWhitespace char = false := by
    intro char last
    rw [List.getLast?_append, List.getLast?_append, Option.mem_def,
      Option.or_eq_some_iff, Option.or_eq_some_iff] at last
    rcases last with (last | ⟨_, last⟩) | ⟨_, last⟩
    · have member := List.mem_of_getLast? last
      exact isWhitespace_of_visible
        (visible char (List.mem_append_right _ member)) (literal char member)
    · rw [endsAt char (closed ▸ last)]
      decide
    · rw [List.getLast?_append] at last
      obtain rfl : '/' = char := by simpa using last
      decide
  have trimmed : strip Outbox.isWhitespace
      ((scheme ++ "://".toList ++ (decoded ++ hostPort)) ++ decodeEntities tail) = _ :=
    Text.strip_append firstBare lastBare (by simp)
  have behind := stops_decoded_tail stops
  generalize (decodeEntities tail).rdropWhile Outbox.isWhitespace = tail' at *
  have cut : (asciiLower (decoded ++ hostPort) ++ asciiLower tail').takeWhile
      inAuthority = asciiLower (decoded ++ hostPort) := by
    refine Text.takeWhile_append_of_stops (fun char member => ?_) ?_
    · obtain ⟨letter, has, rfl⟩ := List.mem_map.mp member
      rw [inAuthority_toLower]
      rcases List.mem_append.mp has with has | has
      · exact inside letter has
      · exact within letter (List.mem_append_right _ has)
    · intro char first
      rw [asciiLower, List.head?_map, Option.mem_def, Option.map_eq_some_iff] at first
      obtain ⟨letter, first, rfl⟩ := first
      rw [inAuthority_toLower]
      exact behind letter first
  have low : asciiLower (urldecodeTrim
      (scheme ++ "://".toList ++ (user ++ hostPort ++ tail))) =
        asciiLower scheme ++ "://".toList ++
          (asciiLower (decoded ++ hostPort) ++ asciiLower tail') := by
    rw [urldecodeTrim, decodedUrl, trim, trimmed]
    simp only [Text.asciiLower_append, List.append_assoc]
    rfl
  rw [low, httpHost, splitOnceAt_scheme named]
  simp only [Option.bind_eq_bind, Option.bind_some, cut]
  rw [Text.asciiLower_append, Text.afterLast_append]
  · rwa [Text.mem_asciiLower (by decide)]
  · cases final : user.getLast? with
    | none =>
        left
        rw [final, List.getLast?_eq_none_iff] at closed
        rw [closed]
        rfl
    | some char =>
        right
        rw [asciiLower, List.getLast?_map, closed, final, endsAt char final]
        rfl

/-- A slash that is not written as one is written as a numeric entity. -/
theorem numeric_of_decoded_slash
    {text : List Char}
    (stops : Stops (· = '/') text)
    (first : (decodeEntities text).head? = some '/') :
    ∃ rest, text = '&' :: '#' :: rest := by
  cases text with
  | nil => simp at first
  | cons char text =>
      have differs : char ≠ '/' := by simpa using Text.stops_cons.mp stops
      by_cases amp : char = '&'
      · subst amp
        cases entity : entityAt text with
        | none =>
            rw [decodeEntities_bare entity] at first
            exact absurd first (by simp)
        | some found =>
            obtain ⟨letter, length⟩ := found
            rw [decodeEntities_entity entity] at first
            obtain rfl : letter = '/' := by simpa using first
            obtain ⟨name, meaning, spans⟩ := eq_append_of_entityAt entity
            rcases harmless_of_entityChar meaning with numeric | ⟨_, safe⟩
            · cases name with
              | nil => simp at numeric
              | cons letter name =>
                  obtain rfl : letter = '#' := by simpa using numeric
                  exact ⟨_, by rw [spans]; rfl⟩
            · exact absurd safe (by decide)
      · rw [decodeEntities_cons amp] at first
        exact absurd (by simpa using first) differs

/-- What the gate wants behind the scheme is there once entities are decoded. -/
theorem slashes_of_isPublicRemote
    {scheme rest : List Char}
    (named : asciiLower scheme = "http".toList ∨ asciiLower scheme = "https".toList)
    (accepted : isPublicRemote (scheme ++ ':' :: rest) = true) :
    "//".toList <+: decodeEntities rest := by
  obtain ⟨nonempty, letters⟩ := letters_of_scheme named
  have noAmp : '&' ∉ scheme ++ [':'] := by
    intro member
    rcases List.mem_append.mp member with member | member
    · exact absurd (letters '&' member).1 (by decide)
    · exact absurd member (by decide)
  have firstBare : Stops Outbox.isWhitespace (scheme ++ [':']) := by
    obtain ⟨first, scheme, rfl⟩ := List.exists_cons_of_ne_nil nonempty
    obtain ⟨high, ascii⟩ := letters first List.mem_cons_self
    exact Text.stops_cons.mpr
      (isWhitespace_of_visible (Nat.lt_trans (by decide) high) ascii)
  have trimmed : strip Outbox.isWhitespace
      ((scheme ++ [':']) ++ decodeEntities rest) = _ :=
    Text.strip_append firstBare (by simp; decide) (by simp)
  have low : asciiLower (urldecodeTrim (scheme ++ ':' :: rest)) =
      asciiLower scheme ++ ':' ::
        asciiLower ((decodeEntities rest).rdropWhile Outbox.isWhitespace) := by
    rw [List.append_cons, urldecodeTrim, decodeEntities_append noAmp, trim, trimmed]
    simp [asciiLower]
  have begins : "//".toList <+:
      asciiLower ((decodeEntities rest).rdropWhile Outbox.isWhitespace) := by
    unfold isPublicRemote at accepted
    simp only [low] at accepted
    generalize asciiLower ((decodeEntities rest).rdropWhile Outbox.isWhitespace) =
      behind at accepted
    split_ifs at accepted with _ refused
    rw [Bool.not_eq_true, Bool.not_eq_false', Bool.or_eq_true] at refused
    rcases named with named | named
    · rw [named] at refused
      simpa [startsWith, List.isPrefixOf] using refused
    · rw [named] at refused
      simpa [startsWith, List.isPrefixOf] using refused
  have unlowered : "//".toList <+:
      (decodeEntities rest).rdropWhile Outbox.isWhitespace := by
    obtain ⟨back, same⟩ := begins
    generalize (decodeEntities rest).rdropWhile Outbox.isWhitespace = behind at same
    rcases behind with _ | ⟨first, _ | ⟨second, others⟩⟩
    · simp [asciiLower] at same
    · simp [asciiLower] at same
    · obtain ⟨one, two, _⟩ : '/' = first.toLower ∧ '/' = second.toLower ∧
          back = asciiLower others := by
        simpa [asciiLower] using same
      rw [eq_comm, Text.toLower_eq_iff (by decide)] at one two
      rw [one, two]
      exact ⟨others, rfl⟩
  exact unlowered.trans (List.rdropWhile_prefix _ _)

theorem exists_httpHost
    {url : List Char}
    (accepted : isPublicRemote url = true) :
    ∃ host, httpHost (asciiLower (urldecodeTrim url)) = some host ∧
      isPublicHost host = true := by
  unfold isPublicRemote at accepted
  simp only at accepted
  split_ifs at accepted
  split at accepted
  · cases accepted
  · rename_i host found
    exact ⟨host, found, accepted⟩

/-- The host that the gate has judged when it accepts a plainly written URL. -/
theorem isPublicHost_of_isPublicRemote
    {url : List Char}
    (trimmed : trim url = url)
    (http : isHttpUrl url = true)
    (plain : PlainlyWritten url)
    (entityless : '&' ∉ hostPortOf url)
    (accepted : isPublicRemote url = true) :
    isPublicHost (hostOf (asciiLower (hostPortOf url))) = true := by
  obtain ⟨scheme, slashes, tail, same, colonless, named, allSlashes, first, stops⟩ :=
    exists_eq_append trimmed http
  obtain ⟨host, found, passed⟩ := exists_httpHost accepted
  have inside : ∀ char ∈ authorityOf url, inAuthority char :=
    fun char member => List.mem_takeWhile_imp member
  have unslashed : url = scheme ++ ':' :: (slashes ++ (authorityOf url ++ tail)) := by
    conv_lhs => rw [same]
    simp
  have begins : "//".toList <+:
      decodeEntities (slashes ++ (authorityOf url ++ tail)) := by
    rw [unslashed] at accepted
    exact slashes_of_isPublicRemote named accepted
  have noEntity : (decodeEntities (authorityOf url ++ tail)).head? ≠ some '/' := by
    intro slash
    obtain ⟨rest, numeric⟩ := numeric_of_decoded_slash first slash
    apply entityless
    have alone : authorityOf url = ['&'] := by
      have cut := Text.takeWhile_append_of_stops inside stops
      rw [numeric] at cut
      rw [← cut]
      rfl
    rw [hostPortOf, alone]
    decide
  match slashes, allSlashes with
  | [], _ =>
      refine absurd ?_ noEntity
      obtain ⟨back, split⟩ := begins
      rw [List.nil_append] at split
      rw [← split]
      rfl
  | [only], allSlashes =>
      obtain rfl : only = '/' := allSlashes only List.mem_cons_self
      refine absurd ?_ noEntity
      obtain ⟨back, split⟩ := begins
      rw [List.singleton_append, decodeEntities_cons (by decide)] at split
      rw [← (List.cons.inj split).2]
      rfl
  | [one, two], allSlashes =>
      obtain rfl : one = '/' := allSlashes one (by simp)
      obtain rfl : two = '/' := allSlashes two (by simp)
      have judged := httpHost_eq named inside
        (fun char member => (plain.unbroken char member).1)
        (fun char member => (plain.literal char member).1) entityless stops
      have shape : scheme ++ "://".toList ++ (authorityOf url ++ tail) = url := by
        conv_rhs => rw [unslashed]
        simp
      rw [shape, found] at judged
      rw [hostPortOf, ← Option.some.inj judged]
      exact passed
  | one :: two :: three :: more, allSlashes =>
      -- Behind a third slash the gate finds no host at all.
      obtain rfl : one = '/' := allSlashes one (by simp)
      obtain rfl : two = '/' := allSlashes two (by simp)
      obtain rfl : three = '/' := allSlashes three (by simp)
      have judged : httpHost (asciiLower (urldecodeTrim (scheme ++ "://".toList ++
          ([] ++ '/' :: (more ++ (authorityOf url ++ tail)))))) =
            some (hostOf (asciiLower (afterLast '@' []))) :=
        httpHost_eq named (by simp) (by simp) (by simp [afterLast])
          (by simp [afterLast]) (Text.stops_cons.mpr rfl)
      have shape : scheme ++ "://".toList ++
          ([] ++ '/' :: (more ++ (authorityOf url ++ tail))) = url := by
        conv_rhs => rw [unslashed]
        simp
      rw [shape, found] at judged
      rw [Option.some.inj judged] at passed
      exact absurd passed (by decide)

/-! ## What the gate promises -/

/-- A host that is the literal of an address the gate is there to refuse. -/
def RefusedLiteral : BrowserHost → Prop
  | .domain _ => False
  | .address ip => isPublicIp ip = false

/-- A kept source that begins as another scheme does takes a browser nowhere. -/
theorem connectsTo_of_other_scheme
    (toAscii : List Char → Option (List Char))
    {url : List Char}
    {scheme : List Char}
    (begins : (scheme ++ [':']).isPrefixOf (asciiLower url) = true)
    (letters : ∀ char ∈ scheme, 0x60 < char.toNat)
    (other : scheme ≠ "http".toList ∧ scheme ≠ "https".toList) :
    connectsTo toAscii url = none := by
  obtain ⟨rest, same⟩ := List.isPrefixOf_iff_prefix.mp begins
  obtain ⟨front, colon, tail, rfl, lowerFront, lowerColon⟩ :
      ∃ front colon tail, url = front ++ colon :: tail ∧
        asciiLower front = scheme ∧ colon.toLower = ':' := by
    rw [List.append_assoc] at same
    obtain ⟨front, behind, rfl, lower, split⟩ := List.map_eq_append_iff.mp same.symm
    obtain ⟨colon, tail, rfl, lowerColon, _⟩ :=
      List.map_eq_cons_iff.mp split
    exact ⟨front, colon, tail, rfl, lower, lowerColon⟩
  obtain rfl := (Text.toLower_eq_iff (by decide)).mp lowerColon
  have bounds : ∀ char ∈ front, 0x20 < char.toNat ∧ char ≠ ':' := by
    intro char member
    have high := letters char.toLower (lowerFront ▸ List.mem_map_of_mem member)
    have small : 0x3A < char.toNat := by
      rcases Text.toNat_toLower char with ⟨lower, _, _⟩ | ⟨_, same⟩
      · omega
      · rw [same] at high
        omega
    refine ⟨by omega, ?_⟩
    rintro rfl
    exact absurd small (by decide)
  have bare : ∀ char ∈ front ++ [':'], 0x20 < char.toNat := by
    intro char member
    rcases List.mem_append.mp member with member | member
    · exact (bounds char member).1
    · rw [List.mem_singleton.mp member]
      decide
  have read : input ((front ++ [':']) ++ tail) = _ := input_append bare (by simp)
  rw [List.append_cons, connectsTo, read, List.append_assoc, List.singleton_append]
  simp only [Text.takeWhile_ne_append
    (fun member => (bounds ':' member).2 rfl), lowerFront]
  rw [if_neg fun both => both.2.elim other.1 other.2]

/-- For every source the gate keeps, plainly written and without octal or
hexadecimal numbers in its host, the host a browser connects to is no literal
the gate refuses. -/
theorem browser_meets_no_refused_literal
    {toAscii : List Char → Option (List Char)}
    (lowered : AsciiLowered toAscii)
    {src url : List Char}
    (kept : safeImgSrc src true = some url)
    (plain : PlainlyWritten url)
    (decimal : DecimalHost url)
    {host : BrowserHost}
    (connects : connectsTo toAscii url = some host) :
    ¬RefusedLiteral host := by
  have image : ∀ (text : List Char) (kind : String),
      ("data:".toList ++ kind.toList).isPrefixOf text = true →
        ("data".toList ++ [':']).isPrefixOf text = true :=
    fun text kind begins => List.isPrefixOf_iff_prefix.mpr
      ((List.prefix_append _ kind.toList).trans (List.isPrefixOf_iff_prefix.mp begins))
  unfold safeImgSrc at kept
  simp only at kept
  split_ifs at kept with _ cid raster _ http gate
  · obtain rfl := Option.some.inj kept
    have inline : ("cid".toList ++ [':']).isPrefixOf
        (asciiLower (urldecodeTrim src)) = true := cid
    rw [connectsTo_of_other_scheme toAscii inline
      (List.all_iff_forall_prop.mp (by decide)) (by decide)] at connects
    cases connects
  · obtain rfl := Option.some.inj kept
    have data : ("data".toList ++ [':']).isPrefixOf
        (asciiLower (urldecodeTrim src)) = true := by
      simp only [isRasterData, Bool.or_eq_true] at raster
      rcases raster with (((png | jpeg) | jpg) | gif) | webp
      · exact image _ "image/png" png
      · exact image _ "image/jpeg" jpeg
      · exact image _ "image/jpg" jpg
      · exact image _ "image/gif" gif
      · exact image _ "image/webp" webp
    rw [connectsTo_of_other_scheme toAscii data
      (List.all_iff_forall_prop.mp (by decide)) (by decide)] at connects
    cases connects
  · obtain rfl := Option.some.inj kept
    rw [Bool.true_and] at gate
    have trimmed : trim (urldecodeTrim src) = urldecodeTrim src :=
      Text.strip_strip _ _
    rw [connectsTo_eq toAscii trimmed http plain] at connects
    cases host with
    | domain name => exact id
    | address ip =>
        obtain ⟨entityless, judged⟩ := isPublicIp_of_authorityHost lowered
          plain.literal plain.port decimal connects
        have accepted := judged
          (isPublicHost_of_isPublicRemote trimmed http plain entityless gate)
        simpa [RefusedLiteral] using accepted

/-- The plain lower-casing of names. -/
def plainLower (text : List Char) : Option (List Char) :=
  some (asciiLower text)

/-- A host with a port, as the gate and a browser take it from a mail. -/
theorem public_address_is_met :
    ∃ src url host, safeImgSrc src true = some url ∧
      connectsTo plainLower url = some host ∧ ¬RefusedLiteral host := by
  have plain : PlainlyWritten "http://user@8.8.8.8:80/x.png".toList :=
    ⟨List.all_iff_forall_prop.mp (by decide), List.all_iff_forall_prop.mp (by decide),
      by decide⟩
  have connects : connectsTo plainLower "http://user@8.8.8.8:80/x.png".toList =
      some (.address (.v4 ⟨0x08080808⟩)) := by
    have literal : percentDecoded "8.8.8.8".toList = "8.8.8.8".toList :=
      percentDecoded_eq (List.all_iff_forall_prop.mp (by decide))
    rw [connectsTo_eq plainLower (by decide +kernel) (by decide +kernel) plain]
    change domainHost plainLower "8.8.8.8".toList = _
    rw [domainHost, literal]
    decide +kernel
  have kept : safeImgSrc "http://user@8.8.8.8:80/x.png".toList true =
      some "http://user@8.8.8.8:80/x.png".toList := by
    decide +kernel
  exact ⟨_, _, _, kept, connects, browser_meets_no_refused_literal
    (fun _ _ => Or.inr rfl) kept plain (by decide +kernel) connects⟩

/-- A loopback address in hexadecimal passes the gate. -/
theorem hexadecimal_loopback_is_met :
    ¬∀ toAscii, AsciiLowered toAscii → ∀ src url host,
      safeImgSrc src true = some url → connectsTo toAscii url = some host →
        ¬RefusedLiteral host := by
  intro claim
  have plain : PlainlyWritten "http://0x7f.1/x.png".toList :=
    ⟨List.all_iff_forall_prop.mp (by decide), List.all_iff_forall_prop.mp (by decide),
      by decide⟩
  have connects : connectsTo plainLower "http://0x7f.1/x.png".toList =
      some (.address (.v4 ⟨0x7f000001⟩)) := by
    have literal : percentDecoded "0x7f.1".toList = "0x7f.1".toList :=
      percentDecoded_eq (List.all_iff_forall_prop.mp (by decide))
    rw [connectsTo_eq plainLower (by decide +kernel) (by decide +kernel) plain]
    change domainHost plainLower "0x7f.1".toList = _
    rw [domainHost, literal]
    decide +kernel
  exact claim plainLower (fun _ _ => Or.inr rfl) "http://0x7f.1/x.png".toList _ _
    (by decide +kernel) connects (by unfold RefusedLiteral; decide +kernel)

end Html
end Mailcore

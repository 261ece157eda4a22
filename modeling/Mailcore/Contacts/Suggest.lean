import Mathlib.Data.Prod.Lex
import Mathlib.Data.Char
import Mathlib.Order.Lex
import Mailcore.Contacts.Score
import Mailcore.Relational.Like

/-!
# Suggestions

`suggest` reads the contacts that its query lets through, scores and sorts them
and cuts the list.
-/

namespace Mailcore
namespace Contacts

open Html (trim)
open Relational
open Text (asciiLower splitOnceAt)

/-- `like` on a column, which does not hold where the column is null. -/
def likeColumn (pattern : List Char) (column : Option (List Char)) : Except LikeError Bool :=
  match column with
  | some text => like '\\' pattern text
  | none => .ok false

/-- The texts that the query of the suggestions reads together. -/
def Contact.joined (contact : Contact) : List Char :=
  contact.address ++ contact.name.getD [] ++ contact.alias_.getD []

/-- `like` pattern matching every string `query` is a case-insensitive
subsequence of. -/
def subsequencePattern (unicode : Unicode) (query : List Char) : List Char :=
  subsequence (unicode.lower.apply query)

/-- The `where` of the suggestions. -/
def prefilter (pattern : List Char) (contact : Contact) : Except LikeError Bool := do
  if ← like '\\' pattern contact.address then return true
  if ← likeColumn pattern contact.name then return true
  if ← likeColumn pattern contact.alias_ then return true
  return globUnprintable contact.joined

/-- Best candidate first: score, then how often and how recently seen. -/
def rankKey (row : Int × Contact) : Int ×ₗ Nat ×ₗ List Char :=
  toLex (row.1, toLex (row.2.timesSeen, row.2.lastSeenAt))

def byScoreThenUse (first second : Int × Contact) : Bool :=
  decide (rankKey second ≤ rankKey first)

/-- `PHONE_WEIGHT`. -/
def PHONE_WEIGHT : Int := 400

def ranked (unicode : Unicode) (q : List Char) (candidates : List Contact) (fromPhone : Bool) :
    List (Int × Contact) :=
  let scored := candidates.filterMap fun c =>
    (matchScore unicode q c).map fun score => (score + (if fromPhone then PHONE_WEIGHT else 0), c)
  scored.mergeSort byScoreThenUse

def rank (unicode : Unicode) (q : List Char) (candidates : List Contact) (limit : Nat) :
    List Contact :=
  ((ranked unicode q candidates false).take limit).map Prod.snd

/-- Most frequently used first. -/
def byUse (first second : Contact) : Bool :=
  decide ((toLex (second.sentCount, toLex (second.timesSeen, second.lastSeenAt)) :
    Nat ×ₗ Nat ×ₗ List Char) ≤
      toLex (first.sentCount, toLex (first.timesSeen, first.lastSeenAt)))

/-- The suggestions from the rows of `contacts`. -/
def suggest (unicode : Unicode) (contacts : List Contact) (query : List Char) (limit : Nat) :
    Except LikeError (List Contact) :=
  let q := trim query
  if q = [] then .ok ((contacts.mergeSort byUse).take limit)
  else do
    let candidates ← selectWhere (prefilter (subsequencePattern unicode q)) contacts
    return rank unicode q candidates limit

/-! ## What the query lets through -/

/-- The pattern of what is typed is not too long for SQL. -/
def Fits (pattern : List Char) : Prop :=
  (pattern.map Char.utf8Size).sum ≤ LIKE_PATTERN_LENGTH

/-- The texts that are there. -/
def Contact.texts (contact : Contact) : List (List Char) :=
  contact.address :: (contact.name.toList ++ contact.alias_.toList)

/-- A text holds a NUL. -/
def Contact.Veiled (contact : Contact) : Prop :=
  '\u0000' ∈ contact.joined

/-- In front of the NULs a contact shows the letters in order, up to their
first NUL, in one text, or a character beyond printable ASCII. -/
def Contact.Shows (contact : Contact) (letters : List Char) : Prop :=
  (∃ text ∈ contact.texts, List.SublistForall₂ Meets (cString letters) (cString text)) ∨
    ∃ char ∈ cString contact.joined, isPrintable char = false

/-- What the query keeps where its pattern fits. -/
def keeps (pieces : List Piece) (contact : Contact) : Bool :=
  likes pieces (cString contact.address) ||
    contact.name.any (fun text => likes pieces (cString text)) ||
    contact.alias_.any (fun text => likes pieces (cString text)) ||
    globUnprintable contact.joined

theorem like_of_fits {pattern : List Char} (fits : Fits pattern) (text : List Char) :
    like '\\' pattern text = .ok (likes (piecesOf '\\' (cString pattern)) (cString text)) := by
  rw [like, if_neg (Nat.not_lt.mpr fits)]

theorem likeColumn_of_fits {pattern : List Char} (fits : Fits pattern)
    (column : Option (List Char)) :
    likeColumn pattern column =
      .ok (column.any fun text => likes (piecesOf '\\' (cString pattern)) (cString text)) := by
  cases column with
  | none => rfl
  | some text => exact like_of_fits fits text

theorem prefilter_of_fits {pattern : List Char} (fits : Fits pattern) (contact : Contact) :
    prefilter pattern contact = .ok (keeps (piecesOf '\\' (cString pattern)) contact) := by
  rw [prefilter, like_of_fits fits, likeColumn_of_fits fits, likeColumn_of_fits fits, keeps]
  generalize likes _ _ = byAddress
  generalize Option.any _ contact.name = byName
  generalize Option.any _ contact.alias_ = byAlias
  cases byAddress <;> cases byName <;> cases byAlias <;> rfl

theorem prefilter_of_not_fits {pattern : List Char} (long : ¬Fits pattern) (contact : Contact) :
    prefilter pattern contact = .error .tooComplex := by
  rw [prefilter, like, if_pos (Nat.lt_of_not_le long)]
  rfl

theorem keeps_iff (letters : List Char) (contact : Contact) :
    keeps (piecesOf '\\' (cString (subsequence letters))) contact ↔ contact.Shows letters := by
  rw [keeps, cString_subsequence, piecesOf_subsequence]
  simp only [Bool.or_eq_true, Option.any_eq_true, likes_subsequence, globUnprintable,
    List.any_eq_true, Bool.not_eq_true', Contact.Shows, Contact.texts, List.mem_cons,
    List.mem_append, Option.mem_toList, or_and_right, exists_or, exists_eq_left, or_assoc]

/-! ## What scores is let through -/

theorem mem_joined {contact : Contact} {text : List Char} {char : Char}
    (known : text ∈ contact.texts) (member : char ∈ text) : char ∈ contact.joined := by
  rw [Contact.texts, List.mem_cons, List.mem_append] at known
  rw [Contact.joined, List.mem_append, List.mem_append]
  rcases known with rfl | named | nicknamed
  · exact .inl (.inl member)
  · rw [Option.mem_toList.mp named]
    exact .inl (.inr member)
  · rw [Option.mem_toList.mp nicknamed]
    exact .inr member

theorem domain_sublist (addr : List Char) : (domain addr).Sublist addr := by
  unfold domain
  cases cut : splitOnceAt ['@'] addr with
  | none => exact List.nil_sublist addr
  | some sides =>
      obtain ⟨front, back⟩ := sides
      conv_rhs => rw [Text.eq_append_of_splitOnceAt cut]
      exact List.sublist_append_right _ _

theorem localPart_sublist (addr : List Char) : (localPart addr).Sublist addr := by
  unfold localPart
  cases cut : splitOnceAt ['@'] addr with
  | none => exact List.Sublist.refl addr
  | some sides =>
      obtain ⟨front, back⟩ := sides
      conv_rhs => rw [Text.eq_append_of_splitOnceAt cut]
      rw [List.append_assoc]
      exact List.sublist_append_left _ _

/-- Every text that is scored is part of one that the query reads. -/
theorem sublist_of_mem_fields {contact : Contact} {field : List Char × Nat}
    (member : field ∈ contact.fields) : ∃ text ∈ contact.texts, field.1.Sublist text := by
  have address : contact.address ∈ contact.texts := List.mem_cons_self
  have optional : ∀ column : Option (List Char), (∀ text ∈ column, text ∈ contact.texts) →
      ∃ text ∈ contact.texts, (column.getD []).Sublist text := by
    intro column known
    cases column with
    | none => exact ⟨_, address, List.nil_sublist _⟩
    | some text => exact ⟨text, known text rfl, List.Sublist.refl text⟩
  simp only [Contact.fields, List.mem_cons, List.not_mem_nil, or_false] at member
  rcases member with rfl | rfl | rfl | rfl | rfl | rfl
  · refine optional contact.alias_ fun text known => ?_
    simp [Contact.texts, Option.mem_def.mp known]
  · refine optional contact.name fun text known => ?_
    simp [Contact.texts, Option.mem_def.mp known]
  · exact ⟨_, address, (List.takeWhile_sublist _).trans (domain_sublist _)⟩
  · exact ⟨_, address, domain_sublist _⟩
  · exact ⟨_, address, List.Sublist.refl _⟩
  · exact ⟨_, address, localPart_sublist _⟩

theorem trim_sublist (text : List Char) : (trim text).Sublist text :=
  (List.rdropWhile_prefix _ _).sublist.trans (List.dropWhile_sublist _)

theorem meets_of_sublist {word text : List Char} (within : word.Sublist (asciiLower text)) :
    List.SublistForall₂ Meets word text := by
  obtain ⟨part, inside, rfl⟩ := List.sublist_map_iff.mp within
  refine List.sublistForall₂_iff.mpr ⟨part, ?_, inside⟩
  rw [List.forall₂_map_left_iff, List.forall₂_same]
  intro char _ _
  exact (Text.toLower_toLower char).symm

theorem shows_of_matchScore {unicode : Unicode} {query : List Char} {contact : Contact}
    {score : Int} (typed : unicode.lower.apply (trim query) ≠ [])
    (clear : ¬contact.Veiled) (found : matchScore unicode query contact = some score) :
    contact.Shows (unicode.lower.apply (trim query)) := by
  by_cases printable : ∃ char ∈ cString contact.joined, isPrintable char = false
  · exact .inr printable
  · obtain ⟨field, member, within⟩ := sublist_of_matchScore typed found
    obtain ⟨text, known, part⟩ := sublist_of_mem_fields member
    refine .inl ⟨text, known, ?_⟩
    have whole : cString contact.joined = contact.joined := cString_of_notMem clear
    rw [whole] at printable
    have ascii : ∀ char ∈ trim field.1, char.toNat < 0x80 := by
      intro char inside
      by_contra far
      refine printable ⟨char, mem_joined known (part.subset ((trim_sublist _).subset inside)), ?_⟩
      rw [isPrintable, Bool.and_eq_false_iff]
      right
      rw [decide_eq_false_iff_not, Nat.not_le]
      exact Nat.lt_of_lt_of_le (by decide) (Nat.le_of_not_lt far)
    rw [(unicode.lower.lowered (trim field.1)).ascii ascii] at within
    rw [cString_of_notMem fun inside => clear (mem_joined known inside)]
    have small : (asciiLower (trim field.1)).Sublist (asciiLower text) :=
      ((trim_sublist _).trans part).map _
    exact meets_of_sublist (((List.takeWhile_sublist _).trans within).trans small)

/-! ## Ranking what is let through -/

section Rank

variable (unicode : Unicode) (q : List Char)

/-- Contacts that do not score may be left out. -/
theorem rank_filter {candidates : List Contact} {kept : Contact → Bool}
    (scored : ∀ contact ∈ candidates, (matchScore unicode q contact).isSome → kept contact)
    (limit : Nat) :
    rank unicode q (candidates.filter kept) limit = rank unicode q candidates limit := by
  unfold rank ranked
  dsimp only
  rw [List.filterMap_filter]
  congr 3
  refine List.filterMap_congr fun contact member => ?_
  cases found : matchScore unicode q contact with
  | none => split_ifs <;> rfl
  | some score => rw [if_pos (scored contact member (by simp [found]))]

/-- Under a limit that cuts nothing all that score are there. -/
theorem mem_rank {candidates : List Contact} {limit : Nat} (wide : candidates.length ≤ limit)
    (contact : Contact) :
    contact ∈ rank unicode q candidates limit ↔
      contact ∈ candidates ∧ (matchScore unicode q contact).isSome := by
  have short : (ranked unicode q candidates false).length ≤ limit := by
    rw [ranked, List.length_mergeSort]
    exact Nat.le_trans (List.length_filterMap_le _ _) wide
  rw [rank, List.take_of_length_le short, ranked, List.mem_map]
  simp only [List.mem_mergeSort, List.mem_filterMap, Option.map_eq_some_iff]
  constructor
  · rintro ⟨row, ⟨found, member, score, scored, rfl⟩, rfl⟩
    exact ⟨member, by simp [scored]⟩
  · rintro ⟨member, scores⟩
    obtain ⟨score, scored⟩ := Option.isSome_iff_exists.mp scores
    exact ⟨_, ⟨contact, member, score, scored, rfl⟩, rfl⟩

end Rank

section Suggest

variable {unicode : Unicode} {query : List Char}

theorem lower_ne_nil (typed : trim query ≠ []) :
    unicode.lower.apply (trim (trim query)) ≠ [] := by
  have bare : trim (trim query) = trim query := Text.strip_strip _ _
  rw [bare]
  intro empty
  have lowered := unicode.lower.lowered (trim query)
  rw [empty] at lowered
  exact typed (Text.lowered_nil_iff.mp lowered)

theorem suggest_of_fits (typed : trim query ≠ [])
    (fits : Fits (subsequencePattern unicode (trim query))) (contacts : List Contact)
    (limit : Nat) :
    suggest unicode contacts query limit = .ok (rank unicode (trim query) (contacts.filter
      (keeps (piecesOf '\\' (cString (subsequencePattern unicode (trim query)))))) limit) := by
  unfold suggest
  dsimp only
  rw [if_neg typed, selectWhere_of_ok (prefilter_of_fits fits)]
  rfl

theorem suggest_of_not_fits (typed : trim query ≠ [])
    (long : ¬Fits (subsequencePattern unicode (trim query))) (first : Contact)
    (others : List Contact) (limit : Nat) :
    suggest unicode (first :: others) query limit = .error .tooComplex := by
  unfold suggest
  dsimp only
  rw [if_neg typed, selectWhere, prefilter_of_not_fits long]
  rfl

/-- The query lets through all that scores exactly where its pattern is not too
long, and the contacts with a NUL that score show it in front of the NUL. -/
theorem suggest_iff (unicode : Unicode) (contacts : List Contact) (query : List Char) :
    (trim query ≠ [] → ∀ limit, suggest unicode contacts query limit =
      .ok (rank unicode (trim query) contacts limit)) ↔
    (trim query = [] ∨ contacts = [] ∨
      Fits (subsequencePattern unicode (trim query)) ∧
        ∀ contact ∈ contacts, contact.Veiled →
          (matchScore unicode (trim query) contact).isSome →
            contact.Shows (unicode.lower.apply (trim query))) := by
  have bare : trim (trim query) = trim query := Text.strip_strip _ _
  constructor
  · intro same
    by_contra unmet
    obtain ⟨typed, some_, unmet⟩ := not_or.mp unmet |>.imp_right not_or.mp
    have fits : Fits (subsequencePattern unicode (trim query)) := by
      by_contra long
      obtain ⟨first, others, rfl⟩ := List.exists_cons_of_ne_nil some_
      have failed := same typed 0
      rw [suggest_of_not_fits typed long] at failed
      cases failed
    refine unmet ⟨fits, fun contact member _ scores => ?_⟩
    have all := same typed contacts.length
    rw [suggest_of_fits typed fits] at all
    have listed := (mem_rank unicode (trim query) (Nat.le_refl _) contact).mpr ⟨member, scores⟩
    rw [← Except.ok.inj all] at listed
    have kept := (mem_rank unicode (trim query) (List.length_filter_le _ _) contact).mp listed
    exact (keeps_iff _ contact).mp (List.mem_filter.mp kept.1).2
  · intro condition typed limit
    rcases condition with blank | rfl | ⟨fits, shown⟩
    · exact absurd blank typed
    · unfold suggest
      dsimp only
      rw [if_neg typed]
      rfl
    · rw [suggest_of_fits typed fits]
      refine congrArg _ (rank_filter unicode _ (fun contact member scores => ?_) limit)
      refine (keeps_iff _ contact).mpr ?_
      by_cases veiled : contact.Veiled
      · exact shown contact member veiled scores
      · obtain ⟨score, found⟩ := Option.isSome_iff_exists.mp scores
        have shows_ : contact.Shows (unicode.lower.apply (trim (trim query))) :=
          shows_of_matchScore (lower_ne_nil typed) veiled found
        rwa [bare] at shows_

end Suggest

namespace Sample

/-- ASCII as all of Unicode. -/
def unicode : Unicode where
  lower := .ascii Outbox.isWhitespace fun _ => Html.isWhitespace_letter
  isAlphanumeric := Char.isAlphanum

/-- A contact that was seen once. -/
def contact (address name : String) : Contact :=
  ⟨address.toList, some name.toList, some name.toList, 1, 0, "2026-01-01".toList⟩

def ann : Contact :=
  contact "ann@example.com" "Ann"

/-- A contact whose name holds a NUL. -/
def veiled : Contact :=
  { ann with name := some ['A', '\u0000', 'z'] }

def long : List Char :=
  List.replicate 25000 'a'

theorem trim_long : trim long = long := by
  refine Text.strip_of_bare (fun char first => ?_) fun char last => ?_
  · rw [List.eq_of_mem_replicate (List.mem_of_mem_head? first)]
    decide
  · rw [List.eq_of_mem_replicate (List.mem_of_mem_getLast? last)]
    decide

theorem not_fits_long : ¬Fits (subsequencePattern unicode long) := by
  have lower : unicode.lower.apply long = long := List.map_replicate
  have size : ∀ count, ((subsequence (List.replicate count 'a')).map Char.utf8Size).sum =
      2 * count + 1 := by
    intro count
    rw [subsequence, List.flatMap_replicate, List.map_cons, List.map_flatten, List.map_replicate,
      List.sum_cons, List.sum_flatten, List.map_replicate, List.sum_replicate_nat]
    simp [escapedLetter, Char.utf8Size]
    omega
  rw [Fits, subsequencePattern, lower, long, size]
  decide

/-- A query of 25000 letters fails, and a name is not found by what stands
behind its NUL. -/
theorem lost_suggestions :
    (trim long ≠ [] ∧ suggest unicode [ann] long 10 = .error .tooComplex) ∧
      suggest unicode [veiled] ['z'] 10 = .ok [] ∧ veiled ∈ rank unicode ['z'] [veiled] 10 := by
  have typed : trim long ≠ [] := by
    rw [trim_long]
    exact List.cons_ne_nil 'a' (List.replicate 24999 'a')
  refine ⟨⟨typed, suggest_of_not_fits typed ?_ ann [] 10⟩, ?_, ?_⟩
  · rw [trim_long]
    exact not_fits_long
  · have fits : Fits (subsequencePattern unicode (trim ['z'])) := by
      rw [Fits]
      decide
    rw [suggest_of_fits (by decide) fits]
    have none_ : [veiled].filter (keeps (piecesOf '\\' (cString
        (subsequencePattern unicode (trim ['z']))))) = [] := by decide
    rw [none_]
    simp [rank, ranked]
  · exact (mem_rank unicode ['z'] (by decide) veiled).mpr ⟨List.mem_singleton_self _, by decide⟩

end Sample

end Contacts
end Mailcore

import Mailcore.Html.Urls
import Mailcore.Text.LowerCase

/-!
# Scores of contacts

How well a contact matches what is typed into a recipient field: six texts of
the contact are scored, the best one counts, and use adds to it.
-/

namespace Mailcore
namespace Contacts

open Html (trim byteLen)
open Outbox (isWhitespace)
open Text (splitOnceAt ToLowercase)

/-- A row of `contacts`. -/
structure Contact where
  address : List Char
  name : Option (List Char)
  alias_ : Option (List Char)
  timesSeen : Nat
  sentCount : Nat
  lastSeenAt : List Char
  deriving DecidableEq, Repr

/-- What the tables of Unicode say. -/
structure Unicode where
  lower : ToLowercase isWhitespace
  isAlphanumeric : Char → Bool

/-! ## Products of doubles -/

/-- The nearest number of 53 bits, of two the even one. -/
def roundDouble (number : Nat) : Nat :=
  let unit := 2 ^ (Nat.log2 number - 52)
  let low := number / unit
  let rest := number % unit
  (if unit < 2 * rest ∨ (2 * rest = unit ∧ low % 2 = 1) then low + 1 else low) * unit

/-- A literal from 1 to 2 with two decimals as a double, in units of `2 ^ -52`. -/
def weight (hundredths : Nat) : Nat :=
  (hundredths * 2 ^ 52 + 50) / 100

/-- `(base_score as f64 * weight) as i64`. -/
def weighted (base : Int) (weight : Nat) : Int :=
  base.sign * (roundDouble (roundDouble base.natAbs * weight) / 2 ^ 52 : Nat)

/-! ## One text -/

/-- Where the search for a subsequence stands. -/
structure Fuzzy where
  rest : List Char
  score : Int
  prevMatchedIdx : Option Nat
  consecutive : Int
  deriving DecidableEq, Repr

/-- A character of the target that is the next of the query. -/
def Fuzzy.met (state : Fuzzy) (rest : List Char) (i : Nat) : Fuzzy :=
  match state.prevMatchedIdx with
  | some prev =>
      if prev + 1 = i then
        { rest, score := state.score + 15 * (state.consecutive + 1), prevMatchedIdx := some i,
          consecutive := state.consecutive + 1 }
      else { rest, score := state.score - 2, prevMatchedIdx := some i, consecutive := 0 }
  | none => { state with rest, prevMatchedIdx := some i }

def Fuzzy.advance (state : Fuzzy) (target : Nat × Char) : Fuzzy :=
  match state.rest with
  | [] => state
  | qCh :: rest => if target.2 = qCh then state.met rest target.1 else state

/-- `str::char_indices`, from a byte on. -/
def charIndices (start : Nat) : List Char → List (Nat × Char)
  | [] => []
  | char :: text => (start, char) :: charIndices (start + char.utf8Size) text

def fuzzySubsequence (query target : List Char) : Option Int :=
  let done := (charIndices 0 target).foldl Fuzzy.advance ⟨query, 100, none, 0⟩
  if done.rest = [] then some (max done.score 10) else none

def scoreField (unicode : Unicode) (query field : List Char) (weight : Nat) : Option Int :=
  let f := unicode.lower.apply (trim field)
  let q := unicode.lower.apply (trim query)
  if f = [] ∨ q = [] then none
  else
    let baseScore : Option Int :=
      if f = q then some 1000
      else if q <+: f then some (700 + ((100 - min (byteLen f) 100) / 2 : Nat))
      else if ((f.splitOnP fun c => !unicode.isAlphanumeric c).filter (· ≠ [])).any
          fun word => decide (q <+: word) then some 550
      else if q <:+: f then some 350
      else fuzzySubsequence q f
    baseScore.map fun base => weighted base weight

/-! ## One contact -/

def localPart (addr : List Char) : List Char :=
  ((splitOnceAt ['@'] addr).getD (addr, [])).1

def domain (addr : List Char) : List Char :=
  ((splitOnceAt ['@'] addr).getD (addr, [])).2

def domainStem (addr : List Char) : List Char :=
  (domain addr).takeWhile (· != '.')

/-- The texts of a contact with their weights: the alias has the highest, then
domain stem and domain, name, and address. -/
def Contact.fields (contact : Contact) : List (List Char × Nat) :=
  [(contact.alias_.getD [], weight 130), (contact.name.getD [], weight 110),
    (domainStem contact.address, weight 125), (domain contact.address, weight 110),
    (contact.address, weight 100), (localPart contact.address, weight 100)]

def matchScore (unicode : Unicode) (query : List Char) (contact : Contact) : Option Int :=
  let q := unicode.lower.apply (trim query)
  if q = [] then some contact.timesSeen
  else
    let bestScore :=
      (contact.fields.filterMap fun field => scoreField unicode q field.1 field.2).max?
    bestScore.map fun s =>
      s + (min contact.timesSeen 50 : Nat) * 2 + (min contact.sentCount 20 : Nat) * 10

/-! ## What scores holds the query -/

theorem Fuzzy.advance_rest (state : Fuzzy) (target : Nat × Char) :
    ∃ taken, state.rest = taken ++ (state.advance target).rest ∧
      taken.Sublist [target.2] := by
  unfold Fuzzy.advance
  split
  · exact ⟨[], rfl, List.nil_sublist _⟩
  · next qCh rest same =>
    split_ifs with equal
    · have kept : (state.met rest target.1).rest = rest := by
        unfold Fuzzy.met
        split
        · split_ifs <;> rfl
        · rfl
      refine ⟨[qCh], ?_, ?_⟩
      · rw [kept, same]
        rfl
      · rw [equal]
    · exact ⟨[], rfl, List.nil_sublist _⟩

theorem Fuzzy.rest_foldl (target : List Char) (start : Nat) (state : Fuzzy) :
    ∃ taken, state.rest = taken ++ ((charIndices start target).foldl advance state).rest ∧
      taken.Sublist target := by
  induction target generalizing start state with
  | nil => exact ⟨[], rfl, List.nil_sublist _⟩
  | cons char target inductionHypothesis =>
      obtain ⟨first, same, single⟩ := state.advance_rest (start, char)
      obtain ⟨more, rest, within⟩ :=
        inductionHypothesis (start + char.utf8Size) (state.advance (start, char))
      refine ⟨first ++ more, ?_, single.append within⟩
      rw [charIndices, List.foldl_cons, List.append_assoc, ← rest]
      exact same

theorem sublist_of_fuzzySubsequence {query target : List Char} {score : Int}
    (found : fuzzySubsequence query target = some score) : query.Sublist target := by
  unfold fuzzySubsequence at found
  dsimp only at found
  split_ifs at found with done
  obtain ⟨taken, same, within⟩ := Fuzzy.rest_foldl target 0 ⟨query, 100, none, 0⟩
  rw [done, List.append_nil] at same
  have whole : query = taken := same
  rw [whole]
  exact within

theorem sublist_of_mem_splitOnP {marked : Char → Bool} {text word : List Char}
    (member : word ∈ text.splitOnP marked) : word.Sublist text := by
  induction text generalizing word with
  | nil =>
      rw [List.splitOnP_nil] at member
      rw [List.mem_singleton.mp member]
  | cons char text inductionHypothesis =>
      rw [List.splitOnP_cons_eq_if_modifyHead] at member
      split_ifs at member
      · rcases List.mem_cons.mp member with rfl | later
        · exact List.nil_sublist _
        · exact (inductionHypothesis later).cons char
      · cases words : text.splitOnP marked with
        | nil => simp [words] at member
        | cons first later =>
            rw [words, List.modifyHead_cons] at member
            rcases List.mem_cons.mp member with rfl | behind
            · exact (inductionHypothesis (words ▸ List.mem_cons_self)).cons_cons char
            · exact (inductionHypothesis (words ▸ List.mem_cons_of_mem _ behind)).cons char

theorem sublist_of_scoreField {unicode : Unicode} {query field : List Char} {weight : Nat}
    {score : Int} (found : scoreField unicode query field weight = some score) :
    (unicode.lower.apply (trim query)).Sublist (unicode.lower.apply (trim field)) := by
  unfold scoreField at found
  dsimp only at found
  split_ifs at found with blank same front word inside
  · rw [same]
  · exact front.sublist
  · obtain ⟨part, member, starts⟩ := List.any_eq_true.mp word
    have whole := sublist_of_mem_splitOnP (List.mem_filter.mp member).1
    exact (of_decide_eq_true starts).sublist.trans whole
  · exact inside.sublist
  · obtain ⟨base, fuzzy, -⟩ := Option.map_eq_some_iff.mp found
    exact sublist_of_fuzzySubsequence fuzzy

/-- Lower-casing what is typed changes nothing. -/
theorem lower_trim_lower (unicode : Unicode) (query : List Char) :
    unicode.lower.apply (trim (unicode.lower.apply (trim query))) =
      unicode.lower.apply (trim query) := by
  have bare : trim (unicode.lower.apply (trim query)) = unicode.lower.apply (trim query) :=
    (unicode.lower.lowered (trim query)).strip_eq (Text.strip_strip _ _)
  rw [bare]
  exact unicode.lower.again _

/-- A contact that scores holds the letters of the query, in order, in one of
its texts. -/
theorem sublist_of_matchScore {unicode : Unicode} {query : List Char} {contact : Contact}
    {score : Int} (typed : unicode.lower.apply (trim query) ≠ [])
    (found : matchScore unicode query contact = some score) :
    ∃ field ∈ contact.fields,
      (unicode.lower.apply (trim query)).Sublist (unicode.lower.apply (trim field.1)) := by
  unfold matchScore at found
  dsimp only at found
  rw [if_neg typed] at found
  obtain ⟨best, most, -⟩ := Option.map_eq_some_iff.mp found
  have member := List.max?_mem most
  obtain ⟨field, known, scored⟩ := List.mem_filterMap.mp member
  refine ⟨field, known, ?_⟩
  have within := sublist_of_scoreField scored
  rwa [lower_trim_lower] at within

end Contacts
end Mailcore

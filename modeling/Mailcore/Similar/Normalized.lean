import Mailcore.Similar.Subject

/-!
# Normal subjects

A normalized subject is normalized already: nothing is left to strip, and
lower-casing puts no prefix there.
-/

namespace Mailcore
namespace Similar

open Html (trim)
open Outbox (isWhitespace)
open Text (asciiLower splitOnceAt ToLowercase Lowered Fixed)

theorem stripped_of_some {s rest : List Char} (turn : stripOnce s = some rest) :
    stripped s = stripped rest := by
  rw [stripped]
  split
  · next other found =>
    rw [turn] at found
    rw [Option.some.inj found]
  · next found =>
    rw [turn] at found
    cases found

theorem stripped_of_none {s : List Char} (turn : stripOnce s = none) : stripped s = s := by
  rw [stripped]
  split
  · next other found =>
    rw [turn] at found
    cases found
  · rfl

/-- What a turn keeps, the loop keeps. -/
theorem stripped_induction (kept : List Char → Prop)
    (turn : ∀ s rest, Stripped s rest → kept s → kept rest) {s : List Char} (holds : kept s) :
    kept (stripped s) := by
  induction s using stripped.induct with
  | case1 s rest found inductionHypothesis =>
      rw [stripped_of_some found]
      exact inductionHypothesis (turn s rest (stripped_of_stripOnce found) holds)
  | case2 s found =>
      rw [stripped_of_none found]
      exact holds

theorem stripOnce_stripped (s : List Char) : stripOnce (stripped s) = none := by
  induction s using stripped.induct with
  | case1 s rest found inductionHypothesis =>
      rw [stripped_of_some found]
      exact inductionHypothesis
  | case2 s found =>
      rw [stripped_of_none found]
      exact found

theorem held_stripped (s : List Char) : Held (stripped s) s :=
  stripped_induction (fun core => Held core s)
    (fun _ _ turn held => turn.held.1.trans held) (Held.refl s)

/-! ## Nothing around the subject -/

theorem trimStart_suffix (text : List Char) : trimStart text <:+ text :=
  List.dropWhile_suffix _

/-- The end of a text without spaces around it, without those in front. -/
theorem trim_trimStart (front : List Char) {text : List Char}
    (bare : trim (front ++ text) = front ++ text) :
    trim (trimStart text) = trimStart text := by
  refine Text.strip_of_bare (Text.stops_dropWhile _ _) fun char last => ?_
  obtain ⟨spaces, same⟩ := trimStart_suffix text
  have ends : (front ++ text).getLast? = some char := by
    rw [← same, List.getLast?_append, List.getLast?_append, Option.mem_def.mp last]
    rfl
  rw [← bare] at ends
  exact Text.getLast?_strip ends

theorem Stripped.trim_eq {s rest : List Char} (turn : Stripped s rest) (bare : trim s = s) :
    trim rest = rest := by
  cases turn with
  | word inside behind isWord =>
      exact trim_trimStart ('[' :: (inside ++ [']'])) bare
  | tag text tail leads closed => exact Text.strip_strip _ _
  | open_ text tail leads =>
      obtain ⟨front, -, before, same, -⟩ := stripPrefixes_eq leads
      obtain ⟨spaces, blank⟩ := trimStart_suffix text
      refine trim_trimStart ('[' :: (spaces ++ before)) ?_
      rw [List.cons_append, List.append_assoc, ← same, blank]
      exact bare
  | front _ tail leads =>
      obtain ⟨front, -, before, rfl, -⟩ := stripPrefixes_eq leads
      exact trim_trimStart before bare

theorem trim_stripped {s : List Char} (bare : trim s = s) : trim (stripped s) = stripped s :=
  stripped_induction (fun text => trim text = text)
    (fun _ _ turn before => turn.trim_eq before) bare

/-! ## Lower-casing puts no prefix there -/

theorem fixed_of_mem_PREFIXES {front : String} (member : front ∈ PREFIXES) :
    ∀ letter ∈ front.toList, Fixed letter := by
  have all : (PREFIXES.all fun front => front.toList.all fun letter => decide (Fixed letter))
      = true := by decide
  intro letter inside
  exact of_decide_eq_true
    (List.all_eq_true.mp (List.all_eq_true.mp all front member) letter inside)

section Lowered

variable {text low : List Char}

theorem stripPrefixes_of_lowered (lowered : Lowered isWhitespace text low)
    (leads : (stripPrefixes low).isSome) : (stripPrefixes text).isSome := by
  obtain ⟨tail, found⟩ := Option.isSome_iff_exists.mp leads
  obtain ⟨front, member, before, rfl, same⟩ := stripPrefixes_eq found
  obtain ⟨word, rest, rfl, read, -⟩ := lowered.front same (fixed_of_mem_PREFIXES member)
  rw [stripPrefixes, List.findSome?_isSome_iff]
  refine ⟨front, member, ?_⟩
  have long : word.length = front.toList.length := by
    rw [← read]
    exact (List.length_map _).symm
  rw [stripPrefixCi, if_pos]
  · rfl
  · rw [← long, List.take_left]
    exact read

theorem isPrefixWord_of_lowered (lowered : Lowered isWhitespace text low)
    (isWord : isPrefixWord low) : isPrefixWord text := by
  obtain ⟨front, member, same⟩ := List.any_eq_true.mp isWord
  refine List.any_eq_true.mpr ⟨front, member, ?_⟩
  rw [decide_eq_true_eq] at same ⊢
  refine lowered.word same fun letter inside => ?_
  exact fixed_of_mem_PREFIXES member letter ((List.rdropWhile_prefix _ _).subset inside)

theorem stripBracket_isSome {rest inside behind : List Char}
    (cut : splitOnceAt [']'] rest = some (inside, behind)) :
    (stripBracket ('[' :: rest)).isSome ↔
      isPrefixWord (trim inside) ∨ (stripPrefixes (trimStart rest)).isSome := by
  rw [stripBracket]
  simp only [cut]
  by_cases isWord : isPrefixWord (trim inside) = true
  · rw [if_pos isWord]
    simp [isWord]
  · rw [if_neg isWord, Option.isSome_map]
    simp [isWord]

theorem stripBracket_of_lowered (lowered : Lowered isWhitespace text low)
    (turn : (stripBracket low).isSome) : (stripBracket text).isSome := by
  have opened : ∃ rest inside behind,
      low = '[' :: rest ∧ splitOnceAt [']'] rest = some (inside, behind) := by
    unfold stripBracket at turn
    split at turn
    · next rest =>
      split at turn
      · next inside behind cut => exact ⟨rest, inside, behind, rfl, cut⟩
      · cases turn
    · cases turn
  obtain ⟨rest, inside, behind, rfl, cut⟩ := opened
  have missing := Text.notMem_of_splitOnceAt cut
  have known := (stripBracket_isSome cut).mp turn
  obtain rfl : rest = inside ++ ']' :: behind := by
    have same := Text.eq_append_of_splitOnceAt cut
    rwa [List.append_assoc] at same
  obtain ⟨before, first, after, rfl, becomes, nothing, tail⟩ :=
    lowered.split [] '[' (by decide)
  obtain rfl := Text.lowered_nil_iff.mp nothing
  obtain rfl : first = '[' := (Text.toLower_eq_iff (by decide)).mp becomes
  obtain ⟨word, second, more, rfl, becomes, leads, later⟩ :=
    tail.split _ ']' (by decide)
  obtain rfl : second = ']' := (Text.toLower_eq_iff (by decide)).mp becomes
  have absent : ']' ∉ word := fun member => missing (leads.mem member (by decide))
  refine (stripBracket_isSome (Text.splitOnceAt_separator absent more)).mpr ?_
  rcases known with isWord | fronted
  · exact .inl (isPrefixWord_of_lowered leads.strip isWord)
  · exact .inr (stripPrefixes_of_lowered tail.dropWhile fronted)

theorem stripOnce_of_lowered (lowered : Lowered isWhitespace text low)
    (stable : stripOnce text = none) : stripOnce low = none := by
  have bracket : stripBracket low = none := by
    by_contra found
    have turn := stripBracket_of_lowered lowered (Option.isSome_iff_ne_none.mpr found)
    obtain ⟨rest, known⟩ := Option.isSome_iff_exists.mp turn
    rw [stripOnce, known] at stable
    cases stable
  have front : stripPrefixes low = none := by
    by_contra found
    have turn := stripPrefixes_of_lowered lowered (Option.isSome_iff_ne_none.mpr found)
    obtain ⟨rest, known⟩ := Option.isSome_iff_exists.mp turn
    unfold stripOnce at stable
    split at stable
    · cases stable
    · rw [known] at stable
      cases stable
  rw [stripOnce, bracket, front]
  rfl

end Lowered

/-- Normalizing is idempotent: one call reaches the fixed point. -/
theorem normalizeSubject_normalizeSubject (lower : ToLowercase isWhitespace)
    (subject : List Char) :
    normalizeSubject lower (normalizeSubject lower subject) = normalizeSubject lower subject := by
  have lowered := lower.lowered (stripped (trim subject))
  have bare : trim (normalizeSubject lower subject) = normalizeSubject lower subject :=
    lowered.strip_eq (trim_stripped (Text.strip_strip _ _))
  have stable : stripOnce (normalizeSubject lower subject) = none :=
    stripOnce_of_lowered lowered (stripOnce_stripped _)
  rw [normalizeSubject, bare, stripped_of_none stable]
  exact lower.again _

end Similar
end Mailcore

import Mailcore.Html.Urls
import Mailcore.Text.LowerCase

/-!
# Normalized subjects

`normalize_subject`: reply and forward prefixes go, also in brackets, until none
is left.
-/

namespace Mailcore
namespace Similar

open Html (trim)
open Outbox (isWhitespace)
open Text (asciiLower splitOnceAt ToLowercase)

/-- Known reply and forward prefixes to strip when normalizing subjects. -/
def PREFIXES : List String :=
  ["re:", "fwd:", "fw:", "aw:", "wg:", "sv:", "vs:", "antw:", "tr:"]

/-- `str::trim_start`. -/
def trimStart (text : List Char) : List Char :=
  text.dropWhile isWhitespace

/-- The text without a leading prefix, in any case.  As the prefix is ASCII, the
bytes of the source are characters. -/
def stripPrefixCi (s : List Char) (front : String) : Option (List Char) :=
  if asciiLower (s.take front.toList.length) = front.toList then
    some (s.drop front.toList.length)
  else none

/-- The text without the first prefix that it begins with. -/
def stripPrefixes (s : List Char) : Option (List Char) :=
  PREFIXES.findSome? (stripPrefixCi s)

/-- A text is a prefix without its colon. -/
def isPrefixWord (inside : List Char) : Bool :=
  PREFIXES.any fun front => asciiLower inside = front.toList.rdropWhile (· = ':')

/-- Bracketed tag prefixes like `[Re]` or `[Fwd: ...]`. -/
def stripBracket (s : List Char) : Option (List Char) :=
  match s with
  | '[' :: rest =>
      match splitOnceAt [']'] rest with
      | some (inside, behind) =>
          if isPrefixWord (trim inside) then some (trimStart behind)
          else
            (stripPrefixes (trimStart rest)).map fun remainder =>
              let remainder := trimStart remainder
              if remainder.getLast? = some ']' then trim remainder.dropLast
              else remainder
      | none => none
  | _ => none

/-- One turn of the loop, where it strips something. -/
def stripOnce (s : List Char) : Option (List Char) :=
  match stripBracket s with
  | some rest => some rest
  | none => (stripPrefixes s).map trimStart

/-- What a turn that strips something has met. -/
inductive Stripped : List Char → List Char → Prop
  | word (inside behind : List Char) (isWord : isPrefixWord (trim inside)) :
      Stripped ('[' :: (inside ++ [']'] ++ behind)) (trimStart behind)
  | tag (text tail : List Char) (front : stripPrefixes (trimStart text) = some tail)
      (closed : (trimStart tail).getLast? = some ']') :
      Stripped ('[' :: text) (trim (trimStart tail).dropLast)
  | open_ (text tail : List Char) (front : stripPrefixes (trimStart text) = some tail) :
      Stripped ('[' :: text) (trimStart tail)
  | front (text tail : List Char) (front : stripPrefixes text = some tail) :
      Stripped text (trimStart tail)

theorem stripped_of_stripBracket {s rest : List Char} (turn : stripBracket s = some rest) :
    Stripped s rest := by
  unfold stripBracket at turn
  split at turn
  · next text =>
    split at turn
    · next inside behind cut =>
      split at turn
      · next isWord =>
        obtain rfl := Option.some.inj turn
        rw [Text.eq_append_of_splitOnceAt cut]
        exact .word inside behind isWord
      · obtain ⟨tail, front, same⟩ := Option.map_eq_some_iff.mp turn
        dsimp only at same
        split at same
        · next closed =>
          rw [← same]
          exact .tag text tail front closed
        · rw [← same]
          exact .open_ text tail front
    · cases turn
  · cases turn

theorem stripped_of_stripOnce {s rest : List Char} (turn : stripOnce s = some rest) :
    Stripped s rest := by
  unfold stripOnce at turn
  split at turn
  · next bracket =>
    obtain rfl := Option.some.inj turn
    exact stripped_of_stripBracket bracket
  · obtain ⟨tail, front, rfl⟩ := Option.map_eq_some_iff.mp turn
    exact .front s tail front

/-! ## Every turn shortens the subject -/

/-- A text lies in another, behind a front without NUL. -/
def Held (core text : List Char) : Prop :=
  ∃ front back, text = front ++ core ++ back ∧ '\u0000' ∉ front

theorem Held.refl (text : List Char) : Held text text :=
  ⟨[], [], by simp, by simp⟩

theorem Held.trans {first second third : List Char}
    (inner : Held first second) (outer : Held second third) : Held first third := by
  obtain ⟨front, back, rfl, clear⟩ := inner
  obtain ⟨front', back', rfl, clear'⟩ := outer
  refine ⟨front' ++ front, back ++ back', by simp, ?_⟩
  rw [List.mem_append]
  exact not_or.mpr ⟨clear', clear⟩

theorem Held.behind (front : List Char) {text : List Char} (clear : '\u0000' ∉ front) :
    Held text (front ++ text) :=
  ⟨front, [], by simp, clear⟩

theorem Held.length {core text : List Char} (held : Held core text) :
    core.length ≤ text.length := by
  obtain ⟨front, back, rfl, -⟩ := held
  simp only [List.length_append]
  omega

theorem held_trimStart (text : List Char) : Held (trimStart text) text := by
  refine ⟨text.takeWhile isWhitespace, [], ?_, fun member => ?_⟩
  · rw [List.append_nil]
    exact (List.takeWhile_append_dropWhile).symm
  · exact absurd (List.mem_takeWhile_imp member) (by decide)

theorem held_trim (text : List Char) : Held (trim text) text := by
  refine Held.trans ?_ (held_trimStart text)
  obtain ⟨back, same⟩ := List.rdropWhile_prefix isWhitespace (trimStart text)
  exact ⟨[], back, same.symm, List.not_mem_nil⟩

theorem held_dropLast (text : List Char) : Held text.dropLast text := by
  obtain ⟨back, same⟩ := List.dropLast_prefix text
  exact ⟨[], back, same.symm, List.not_mem_nil⟩

theorem nul_notMem_PREFIXES {front : String} (member : front ∈ PREFIXES) :
    '\u0000' ∉ front.toList := by
  have clear : (PREFIXES.all fun front => !(front.toList.contains '\u0000')) = true := by decide
  have here := List.all_eq_true.mp clear front member
  simpa using here

theorem stripPrefixCi_eq {s rest : List Char} {front : String}
    (turn : stripPrefixCi s front = some rest) :
    ∃ before, s = before ++ rest ∧ asciiLower before = front.toList := by
  unfold stripPrefixCi at turn
  split at turn
  · next same =>
    obtain rfl := Option.some.inj turn
    exact ⟨_, (List.take_append_drop _ s).symm, same⟩
  · cases turn

theorem stripPrefixes_eq {s rest : List Char} (turn : stripPrefixes s = some rest) :
    ∃ front ∈ PREFIXES, ∃ before, s = before ++ rest ∧ asciiLower before = front.toList := by
  obtain ⟨front, member, here⟩ := List.exists_of_findSome?_eq_some turn
  exact ⟨front, member, stripPrefixCi_eq here⟩

theorem nul_notMem_of_asciiLower {text low : List Char} (same : asciiLower text = low)
    (clear : '\u0000' ∉ low) : '\u0000' ∉ text := by
  intro member
  apply clear
  rw [← same]
  exact List.mem_map_of_mem member

theorem held_stripPrefixes {s rest : List Char} (turn : stripPrefixes s = some rest) :
    Held rest s ∧ rest.length < s.length := by
  obtain ⟨front, member, before, rfl, same⟩ := stripPrefixes_eq turn
  refine ⟨.behind before (nul_notMem_of_asciiLower same (nul_notMem_PREFIXES member)), ?_⟩
  have nonempty : before ≠ [] := by
    rintro rfl
    have long : (PREFIXES.all fun front => !front.toList.isEmpty) = true := by decide
    have here := List.all_eq_true.mp long front member
    rw [← same] at here
    exact absurd here (by decide)
  have positive := List.length_pos_of_ne_nil nonempty
  rw [List.length_append]
  omega

theorem nul_notMem_of_isPrefixWord {inside : List Char} (isWord : isPrefixWord (trim inside)) :
    '\u0000' ∉ inside := by
  intro member
  obtain ⟨front, known, same⟩ := List.any_eq_true.mp isWord
  rw [decide_eq_true_eq] at same
  have clear : '\u0000' ∉ trim inside := by
    refine nul_notMem_of_asciiLower same fun within => nul_notMem_PREFIXES known ?_
    exact (List.rdropWhile_prefix _ _).subset within
  exact clear (Text.mem_strip member (by decide))

/-- What a turn leaves lies in the subject, and is shorter. -/
theorem Stripped.held {s rest : List Char} (turn : Stripped s rest) :
    Held rest s ∧ rest.length < s.length := by
  cases turn with
  | word inside behind isWord =>
      have opened : Held behind ('[' :: (inside ++ [']'] ++ behind)) := by
        refine Held.behind ('[' :: (inside ++ [']'])) ?_
        simpa using nul_notMem_of_isPrefixWord isWord
      refine ⟨(held_trimStart behind).trans opened, ?_⟩
      have short := (held_trimStart behind).length
      simp only [List.length_cons, List.length_append]
      omega
  | tag text tail front closed =>
      obtain ⟨held, short⟩ := held_stripPrefixes front
      have inner : Held (trim (trimStart tail).dropLast) tail :=
        ((held_trim _).trans (held_dropLast _)).trans (held_trimStart tail)
      have opened : Held text ('[' :: text) := Held.behind ['['] (by decide)
      refine ⟨((inner.trans held).trans (held_trimStart text)).trans opened, ?_⟩
      have less := inner.length
      have most := (held_trimStart text).length
      rw [List.length_cons]
      omega
  | open_ text tail front =>
      obtain ⟨held, short⟩ := held_stripPrefixes front
      have inner := held_trimStart tail
      have opened : Held text ('[' :: text) := Held.behind ['['] (by decide)
      refine ⟨((inner.trans held).trans (held_trimStart text)).trans opened, ?_⟩
      have less := inner.length
      have most := (held_trimStart text).length
      rw [List.length_cons]
      omega
  | front _ tail front =>
      obtain ⟨held, short⟩ := held_stripPrefixes front
      have inner := held_trimStart tail
      exact ⟨inner.trans held, Nat.lt_of_le_of_lt inner.length short⟩

/-- The loop of `normalize_subject`. -/
def stripped (s : List Char) : List Char :=
  match _turn : stripOnce s with
  | some rest => stripped rest
  | none => s
termination_by s.length
decreasing_by exact (stripped_of_stripOnce ‹_›).held.2

def normalizeSubject (lower : ToLowercase isWhitespace) (subject : List Char) : List Char :=
  lower.apply (stripped (trim subject))

end Similar
end Mailcore

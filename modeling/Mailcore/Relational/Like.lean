import Mailcore.Text.LowerCase
import Mathlib.Algebra.Ring.Nat
import Mathlib.Data.List.Forall2
import Mathlib.Data.List.Infix
import Mathlib.Data.List.TakeWhile

/-!
# The pattern operators of SQL

`like` folds the case of ASCII letters only.  Both operators read their texts up
to the first NUL, and a pattern that is too long is an error.
-/

namespace Mailcore
namespace Relational

open Text (asciiLower)

/-- A text as the pattern operators see it. -/
def cString (text : List Char) : List Char :=
  text.takeWhile (· != '\u0000')

/-- One position of a pattern. -/
inductive Piece
  | anything
  | one
  | letter (char : Char)
  /-- An escape character at the end of the pattern. -/
  | stuck
  deriving DecidableEq, Repr

def pieceOf (char : Char) : Piece :=
  if char = '%' then .anything else if char = '_' then .one else .letter char

def piecesOf (escape : Char) : List Char → List Piece
  | [] => []
  | [char] => [if char = escape then .stuck else pieceOf char]
  | char :: next :: rest =>
      if char = escape then .letter next :: piecesOf escape rest
      else pieceOf char :: piecesOf escape (next :: rest)

def likes : List Piece → List Char → Bool
  | [], text => text.isEmpty
  | .anything :: pieces, text =>
      (List.range (text.length + 1)).any fun taken => likes pieces (text.drop taken)
  | .one :: pieces, text => !text.isEmpty && likes pieces text.tail
  | .letter char :: pieces, text =>
      text.head?.any (fun first => first.toLower == char.toLower) && likes pieces text.tail
  | .stuck :: _, _ => false

/-- `SQLITE_MAX_LIKE_PATTERN_LENGTH`. -/
def LIKE_PATTERN_LENGTH : Nat := 50000

inductive LikeError
  /-- LIKE or GLOB pattern too complex. -/
  | tooComplex
  deriving DecidableEq, Repr

/-- `text like pattern escape '…'`. -/
def like (escape : Char) (pattern text : List Char) : Except LikeError Bool :=
  if LIKE_PATTERN_LENGTH < (pattern.map Char.utf8Size).sum then .error .tooComplex
  else .ok (likes (piecesOf escape (cString pattern)) (cString text))

/-- A character between the space and the tilde. -/
def isPrintable (char : Char) : Bool :=
  decide (' '.toNat ≤ char.toNat) && decide (char.toNat ≤ '~'.toNat)

/-- `text glob '*[^ -~]*'`. -/
def globUnprintable (text : List Char) : Bool :=
  (cString text).any fun char => !isPrintable char

/-- The rows that a `where` keeps which may fail. -/
def selectWhere {ρ ε : Type} (keep : ρ → Except ε Bool) : List ρ → Except ε (List ρ)
  | [] => .ok []
  | row :: rows => do
      let kept ← keep row
      let rest ← selectWhere keep rows
      return if kept then row :: rest else rest

theorem selectWhere_of_ok {ρ ε : Type} {keep : ρ → Except ε Bool} {kept : ρ → Bool}
    (same : ∀ row, keep row = .ok (kept row)) (rows : List ρ) :
    selectWhere keep rows = .ok (rows.filter kept) := by
  induction rows with
  | nil => rfl
  | cons row rows inductionHypothesis =>
      rw [selectWhere, same, inductionHypothesis, List.filter_cons]
      rfl

/-! ## Matching -/

theorem likes_anything {pieces : List Piece} {text : List Char} :
    likes (.anything :: pieces) text ↔
      ∃ front back, text = front ++ back ∧ likes pieces back := by
  simp only [likes, List.any_eq_true, List.mem_range]
  constructor
  · rintro ⟨taken, -, matched⟩
    exact ⟨_, _, (List.take_append_drop taken text).symm, matched⟩
  · rintro ⟨front, back, rfl, matched⟩
    refine ⟨front.length, ?_, ?_⟩
    · rw [List.length_append]
      omega
    · rwa [List.drop_left]

theorem likes_letter {char first : Char} {pieces : List Piece} {rest : List Char}
    (same : first.toLower = char.toLower) (matched : likes pieces rest) :
    likes (.letter char :: pieces) (first :: rest) := by
  simp only [likes, List.head?_cons, Option.any_some, List.tail_cons, Bool.and_eq_true,
    beq_iff_eq]
  exact ⟨same, matched⟩

theorem likes_one {first : Char} {pieces : List Piece} {rest : List Char}
    (matched : likes pieces rest) : likes (.one :: pieces) (first :: rest) := by
  simpa [likes] using matched

/-- Letters in front of a pattern are met by the same letters in any case. -/
theorem likes_letters
    {word front back : List Char} {pieces : List Piece}
    (same : asciiLower front = asciiLower word) (matched : likes pieces back) :
    likes (word.map .letter ++ pieces) (front ++ back) := by
  induction word generalizing front with
  | nil =>
      obtain rfl := List.map_eq_nil_iff.mp same
      exact matched
  | cons char word inductionHypothesis =>
      obtain ⟨first, rest, rfl, here, behind⟩ := List.map_eq_cons_iff.mp same
      exact likes_letter here (inductionHypothesis behind)

/-! ## Escaped texts -/

/-- How the queries write a character of a text: wildcards escaped, and `_` for
what `like` would compare by case. -/
def escapedLetter (char : Char) : List Char :=
  if char = '%' ∨ char = '_' ∨ char = '\\' then ['\\', char]
  else if char.toNat < 0x80 then [char]
  else ['_']

/-- The position a written character stands for. -/
def escapedPiece (char : Char) : Piece :=
  if char.toNat < 0x80 then .letter char else .one

theorem piecesOf_cons {escape char : Char} (plain : char ≠ escape) (rest : List Char) :
    piecesOf escape (char :: rest) = pieceOf char :: piecesOf escape rest := by
  cases rest with
  | nil => simp only [piecesOf, if_neg plain]
  | cons next rest => rw [piecesOf, if_neg plain]

theorem piecesOf_escapedLetter (char : Char) (rest : List Char) :
    piecesOf '\\' (escapedLetter char ++ rest) = escapedPiece char :: piecesOf '\\' rest := by
  unfold escapedLetter escapedPiece
  by_cases special : char = '%' ∨ char = '_' ∨ char = '\\'
  · rw [if_pos special]
    have ascii : char.toNat < 0x80 := by
      rcases special with rfl | rfl | rfl <;> decide
    rw [if_pos ascii]
    exact if_pos rfl
  · rw [if_neg special]
    simp only [not_or] at special
    by_cases ascii : char.toNat < 0x80
    · rw [if_pos ascii, if_pos ascii, List.singleton_append, piecesOf_cons special.2.2,
        pieceOf, if_neg special.1, if_neg special.2.1]
    · rw [if_neg ascii, if_neg ascii]
      exact piecesOf_cons (by decide) rest

theorem piecesOf_escaped (text rest : List Char) :
    piecesOf '\\' (text.flatMap escapedLetter ++ rest) =
      text.map escapedPiece ++ piecesOf '\\' rest := by
  induction text with
  | nil => rfl
  | cons char text inductionHypothesis =>
      rw [List.flatMap_cons, List.append_assoc, piecesOf_escapedLetter, inductionHypothesis]
      rfl

/-! ## Letters in order -/

/-- A written character is met by the same letter in any case, or by any where
it is not ASCII. -/
def Meets (char first : Char) : Prop :=
  char.toNat < 0x80 → first.toLower = char.toLower

/-- What the queries write for "these letters, in order". -/
def subsequence (text : List Char) : List Char :=
  '%' :: text.flatMap fun char => escapedLetter char ++ ['%']

theorem likes_escapedPiece {char : Char} {pieces : List Piece} {text : List Char} :
    likes (escapedPiece char :: pieces) text ↔
      ∃ first rest, text = first :: rest ∧ Meets char first ∧ likes pieces rest := by
  unfold escapedPiece Meets
  cases text with
  | nil => split_ifs <;> simp [likes]
  | cons first rest => split_ifs with ascii <;> simp [likes, ascii]

theorem piecesOf_subsequence (text : List Char) :
    piecesOf '\\' (subsequence text) =
      .anything :: text.flatMap fun char => [escapedPiece char, .anything] := by
  rw [subsequence, piecesOf_cons (by decide)]
  refine congrArg _ ?_
  induction text with
  | nil => rfl
  | cons char text inductionHypothesis =>
      rw [List.flatMap_cons, List.append_assoc, piecesOf_escapedLetter,
        List.singleton_append, piecesOf_cons (by decide), inductionHypothesis]
      rfl

theorem sublistForall₂_cons {α β : Type} {relates : α → β → Prop} {char : α} {word : List α}
    {text : List β} :
    List.SublistForall₂ relates (char :: word) text ↔
      ∃ front first rest, text = front ++ first :: rest ∧ relates char first ∧
        List.SublistForall₂ relates word rest := by
  constructor
  · intro within
    induction text with
    | nil => cases within
    | cons first rest inductionHypothesis =>
        cases within with
        | cons here behind => exact ⟨[], first, rest, rfl, here, behind⟩
        | cons_right behind =>
            obtain ⟨front, other, tail, rfl, here, later⟩ := inductionHypothesis behind
            exact ⟨first :: front, other, tail, rfl, here, later⟩
  · rintro ⟨front, first, rest, rfl, here, behind⟩
    induction front with
    | nil => exact .cons here behind
    | cons other front inductionHypothesis => exact .cons_right inductionHypothesis

/-- The pattern is met by the texts that hold the letters in order. -/
theorem likes_subsequence {word text : List Char} :
    likes (.anything :: word.flatMap fun char => [escapedPiece char, .anything]) text ↔
      List.SublistForall₂ Meets word text := by
  induction word generalizing text with
  | nil =>
      refine iff_of_true ?_ .nil
      exact likes_anything.mpr ⟨text, [], (List.append_nil text).symm, rfl⟩
  | cons char word inductionHypothesis =>
      rw [sublistForall₂_cons, likes_anything]
      constructor
      · rintro ⟨front, back, rfl, matched⟩
        obtain ⟨first, rest, rfl, here, behind⟩ := likes_escapedPiece.mp matched
        exact ⟨front, first, rest, rfl, here, inductionHypothesis.mp behind⟩
      · rintro ⟨front, first, rest, rfl, here, behind⟩
        refine ⟨front, first :: rest, rfl, likes_escapedPiece.mpr ?_⟩
        exact ⟨first, rest, rfl, here, inductionHypothesis.mpr behind⟩

/-! ## Texts with a NUL -/

theorem cString_of_notMem {text : List Char} (whole : '\u0000' ∉ text) :
    cString text = text := by
  rw [cString, List.takeWhile_eq_self_iff]
  intro char member
  rw [bne_iff_ne]
  rintro rfl
  exact whole member

theorem cString_append {front : List Char} (whole : '\u0000' ∉ front) (rest : List Char) :
    cString (front ++ rest) = front ++ cString rest := by
  rw [cString, List.takeWhile_append_of_pos]
  · rfl
  · intro char member
    rw [bne_iff_ne]
    rintro rfl
    exact whole member

theorem cString_cut (front rest : List Char) (whole : '\u0000' ∉ front) :
    cString (front ++ '\u0000' :: rest) = front := by
  rw [cString_append whole]
  exact List.append_nil front

/-- A text is what is seen of it, or goes on behind a NUL. -/
theorem cString_cases (text : List Char) :
    '\u0000' ∉ text ∧ cString text = text ∨
      ∃ rest, text = cString text ++ '\u0000' :: rest ∧ '\u0000' ∉ cString text := by
  by_cases whole : '\u0000' ∈ text
  · obtain ⟨front, rest, same, first⟩ := List.eq_append_cons_of_mem whole
    refine .inr ⟨rest, ?_, ?_⟩
    · rw [same, cString_cut front rest first]
    · rwa [same, cString_cut front rest first]
  · exact .inl ⟨whole, cString_of_notMem whole⟩

theorem nul_notMem_escapedLetter {char : Char} (visible : char ≠ '\u0000') :
    '\u0000' ∉ escapedLetter char := by
  unfold escapedLetter
  split_ifs
  · simp [visible.symm]
  · simp [visible.symm]
  · decide

theorem nul_notMem_escaped {text : List Char} (whole : '\u0000' ∉ text) :
    '\u0000' ∉ text.flatMap escapedLetter := by
  rw [List.mem_flatMap]
  rintro ⟨char, member, inside⟩
  refine nul_notMem_escapedLetter (fun same => ?_) inside
  exact whole (same ▸ member)

theorem nul_notMem_subsequence {text : List Char} (whole : '\u0000' ∉ text) :
    '\u0000' ∉ subsequence text := by
  rw [subsequence, List.mem_cons, List.mem_flatMap, not_or]
  refine ⟨by decide, ?_⟩
  rintro ⟨char, member, inside⟩
  rcases List.mem_append.mp inside with letter | wild
  · exact nul_notMem_escapedLetter (fun same => whole (same ▸ member)) letter
  · exact absurd wild (by decide)

/-- Of the letters those up to the first NUL are asked for. -/
theorem cString_subsequence (text : List Char) :
    cString (subsequence text) = subsequence (cString text) := by
  rcases cString_cases text with ⟨whole, same⟩ | ⟨rest, same, cut⟩
  · rw [same]
    exact cString_of_notMem (nul_notMem_subsequence whole)
  · have shape : ∃ later, subsequence text = subsequence (cString text) ++ '\u0000' :: later := by
      refine ⟨'%' :: rest.flatMap fun char => escapedLetter char ++ ['%'], ?_⟩
      conv_lhs => rw [same]
      rw [subsequence, List.flatMap_append, List.flatMap_cons]
      rfl
    obtain ⟨later, written⟩ := shape
    rw [written, cString_cut _ _ (nul_notMem_subsequence cut)]

end Relational
end Mailcore

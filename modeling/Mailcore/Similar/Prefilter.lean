import Mailcore.Relational.Like
import Mailcore.Similar.Normalized

/-!
# The prefilter of the subject tier

The query sees only subjects that contain the normalized one, or that hold a
character whose case SQL does not fold.
-/

namespace Mailcore
namespace Similar

open Html (trim)
open Outbox (isWhitespace)
open Relational
open Text (asciiLower ToLowercase Lowered)

/-- `like` pattern for "contains `text`", case-insensitively for ASCII. -/
def containsPattern (text : List Char) : List Char :=
  '%' :: (text.flatMap escapedLetter ++ ['%'])

/-- `m.subject like ?3 escape '\' or m.subject glob '*[^ -~]*'`. -/
def prefilter (targetNorm subject : List Char) : Except LikeError Bool := do
  let contained ← like '\\' (containsPattern targetNorm) subject
  return contained || globUnprintable subject

/-- The pattern of a normalized subject is not too long for SQL. -/
def Fits (targetNorm : List Char) : Prop :=
  ((containsPattern targetNorm).map Char.utf8Size).sum ≤ LIKE_PATTERN_LENGTH

theorem prefilter_of_not_fits {targetNorm : List Char} (long : ¬Fits targetNorm)
    (subject : List Char) : prefilter targetNorm subject = .error .tooComplex := by
  rw [prefilter, like, if_pos (Nat.lt_of_not_le long)]
  rfl

theorem prefilter_of_fits {targetNorm : List Char} (fits : Fits targetNorm)
    (subject : List Char) :
    prefilter targetNorm subject =
      .ok (likes (piecesOf '\\' (cString (containsPattern targetNorm))) (cString subject) ||
        globUnprintable subject) := by
  rw [prefilter, like, if_neg (Nat.not_lt.mpr fits)]
  rfl

/-! ## A subject that reads as the target -/

theorem ascii_of_isPrintable {char : Char} (printable : isPrintable char) :
    char.toNat < 0x80 := by
  rw [isPrintable, Bool.and_eq_true, decide_eq_true_eq, decide_eq_true_eq] at printable
  exact Nat.lt_of_le_of_lt printable.2 (by decide)

/-- A text held by another is found there by the pattern of its small letters. -/
theorem likes_held {front core back : List Char} {pieces : List Piece}
    (ascii : ∀ char ∈ core, char.toNat < 0x80) (matched : likes pieces back) :
    likes (.anything :: ((asciiLower core).map escapedPiece ++ pieces))
      (front ++ (core ++ back)) := by
  refine likes_anything.mpr ⟨front, core ++ back, rfl, ?_⟩
  have letters : (asciiLower core).map escapedPiece = (asciiLower core).map .letter := by
    refine List.map_congr_left fun char member => ?_
    obtain ⟨other, within, rfl⟩ := List.mem_map.mp member
    have small : other.toLower.toNat < 0x80 := by
      have large := ascii other within
      rcases Text.toNat_toLower other with ⟨-, upper, moved⟩ | ⟨-, same⟩
      · omega
      · rwa [same]
    rw [escapedPiece, if_pos small]
  rw [letters]
  exact likes_letters (by simp) matched

theorem piecesOf_contains (text rest : List Char) :
    piecesOf '\\' ('%' :: (text.flatMap escapedLetter ++ rest)) =
      .anything :: (text.map escapedPiece ++ piecesOf '\\' rest) := by
  rw [piecesOf_cons (by decide), piecesOf_escaped]
  rfl

theorem nul_notMem_asciiLower {text : List Char} (clear : '\u0000' ∉ text) :
    '\u0000' ∉ asciiLower text := by
  intro member
  obtain ⟨char, within, becomes⟩ := List.mem_map.mp member
  obtain rfl : char = '\u0000' := (Text.toLower_eq_iff (by decide)).mp becomes
  exact clear within

theorem likes_of_held {core norm subject : List Char} (held : Held core subject)
    (lowered : Lowered isWhitespace core norm) (printable : globUnprintable subject = false) :
    likes (piecesOf '\\' (cString (containsPattern norm))) (cString subject) := by
  obtain ⟨front, back, rfl, clear⟩ := held
  rw [List.append_assoc, cString_append clear]
  have seen : ∀ char ∈ cString (core ++ back), char.toNat < 0x80 := by
    intro char member
    refine ascii_of_isPrintable ?_
    have all := List.any_eq_false.mp printable char (by
      rw [List.append_assoc, cString_append clear]
      exact List.mem_append_right _ member)
    simpa using all
  rcases cString_cases core with ⟨whole, -⟩ | ⟨rest, same, cut⟩
  · rw [cString_append whole] at seen ⊢
    have ascii : ∀ char ∈ core, char.toNat < 0x80 := fun char member =>
      seen char (List.mem_append_left _ member)
    rw [lowered.ascii ascii]
    have visible : '\u0000' ∉ containsPattern (asciiLower core) := by
      have escaped := nul_notMem_escaped (nul_notMem_asciiLower whole)
      simp [containsPattern, escaped]
    rw [cString_of_notMem visible, containsPattern, piecesOf_contains]
    refine likes_held ascii (likes_anything.mpr ⟨cString back, [], by simp, rfl⟩)
  · generalize cString core = seenCore at same cut
    rw [same, List.append_assoc, List.cons_append, cString_cut _ _ cut] at seen ⊢
    rw [same] at lowered
    obtain ⟨leads, follows, rfl, before, behind⟩ := lowered.of_append
    rw [before.ascii seen]
    cases behind with
    | cons image _ =>
        rw [image.ascii (by decide)]
        have escaped := nul_notMem_escaped (nul_notMem_asciiLower cut)
        have visible : '\u0000' ∉ '%' :: (asciiLower seenCore).flatMap escapedLetter := by
          simp [escaped]
        have pattern : ∀ later, containsPattern (asciiLower seenCore ++ ([Char.toLower '\u0000'] ++
            later)) = ('%' :: (asciiLower seenCore).flatMap escapedLetter) ++ '\u0000' ::
              (later.flatMap escapedLetter ++ ['%']) := by
          intro later
          simp [containsPattern, escapedLetter]
        rw [pattern, cString_cut _ _ visible, ← List.append_nil (List.flatMap _ _),
          piecesOf_contains]
        have ended : likes (piecesOf '\\' []) [] := rfl
        have found : likes _ (front ++ (seenCore ++ [])) := likes_held seen ended
        rwa [List.append_nil] at found

theorem prefilter_of_normalized {lower : ToLowercase isWhitespace} {targetNorm subject : List Char}
    (fits : Fits targetNorm) (same : normalizeSubject lower subject = targetNorm) :
    prefilter targetNorm subject = .ok true := by
  rw [prefilter_of_fits fits]
  by_cases printable : globUnprintable subject = true
  · rw [printable, Bool.or_true]
  · have held := (held_stripped (trim subject)).trans (held_trim subject)
    have lowered := lower.lowered (stripped (trim subject))
    rw [← normalizeSubject, same] at lowered
    rw [likes_of_held held lowered (by simpa using printable), Bool.true_or]

/-- The prefilter loses no subject, and normalizing is idempotent, exactly where
the pattern of the target is not too long. -/
theorem prefilter_iff (lower : ToLowercase isWhitespace) (target : List Char) :
    ((∀ subject, normalizeSubject lower subject = normalizeSubject lower target →
        normalizeSubject lower target ≠ [] →
        prefilter (normalizeSubject lower target) subject = .ok true) ∧
      ∀ subject, normalizeSubject lower (normalizeSubject lower subject) =
        normalizeSubject lower subject) ↔
    (normalizeSubject lower target = [] ∨ Fits (normalizeSubject lower target)) := by
  constructor
  · rintro ⟨admits, -⟩
    by_contra unmet
    obtain ⟨nonempty, long⟩ := not_or.mp unmet
    have admitted := admits target rfl nonempty
    rw [prefilter_of_not_fits long] at admitted
    cases admitted
  · intro condition
    refine ⟨fun subject same nonempty => ?_, normalizeSubject_normalizeSubject lower⟩
    exact prefilter_of_normalized (condition.resolve_left nonempty) same

namespace Sample

/-- Lower-casing of ASCII letters only. -/
def asciiOnly : ToLowercase isWhitespace :=
  .ascii isWhitespace fun _ => Html.isWhitespace_letter

/-- A subject as long as a pattern may be. -/
def long : List Char :=
  List.replicate LIKE_PATTERN_LENGTH 'a'

theorem trim_long : trim long = long := by
  refine Text.strip_of_bare (fun char first => ?_) fun char last => ?_
  · rw [List.eq_of_mem_replicate (List.mem_of_mem_head? first)]
    decide
  · rw [List.eq_of_mem_replicate (List.mem_of_mem_getLast? last)]
    decide

theorem stripOnce_long : stripOnce long = none := by
  have shape : long = 'a' :: 'a' :: 'a' :: 'a' :: 'a' :: List.replicate 49995 'a' := rfl
  rw [shape]
  generalize List.replicate 49995 'a' = rest
  rfl

theorem normalizeSubject_long : normalizeSubject asciiOnly long = long := by
  rw [normalizeSubject, trim_long, stripped_of_none stripOnce_long]
  exact List.map_replicate

theorem not_fits_long : ¬Fits long := by
  have escaped : long.flatMap escapedLetter = long := by
    rw [long, List.flatMap_replicate]
    exact List.flatten_replicate_singleton
  have size : ∀ count, (('%' :: (List.replicate count 'a' ++ ['%'])).map Char.utf8Size).sum =
      1 + (count + 1) := by
    intro count
    rw [List.map_cons, List.map_append, List.map_replicate, List.sum_cons, List.sum_append,
      List.sum_replicate_nat]
    simp [Char.utf8Size]
  rw [Fits, containsPattern, escaped, long, size]
  omega

/-- A subject of 50000 letters is not found by itself: the query fails. -/
theorem long_subject_fails :
    normalizeSubject asciiOnly long ≠ [] ∧
      prefilter (normalizeSubject asciiOnly long) long = .error .tooComplex := by
  rw [normalizeSubject_long]
  refine ⟨?_, prefilter_of_not_fits not_fits_long long⟩
  exact List.cons_ne_nil 'a' (List.replicate 49999 'a')

end Sample

end Similar
end Mailcore

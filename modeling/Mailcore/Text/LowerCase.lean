import Mailcore.Text.Slices
import Mathlib.Data.List.Basic

/-!
# ASCII case

Lower-casing of ASCII letters leaves every other character alone.
-/

namespace Mailcore
namespace Text

/-- `to_ascii_lowercase`. -/
def asciiLower (text : List Char) : List Char :=
  text.map Char.toLower

theorem isAlpha_eq (char : Char) : char.isAlpha = (char.isUpper || char.isLower) := rfl

theorem isUpper_eq (char : Char) :
    char.isUpper = decide (char.val ≥ 'A'.val ∧ char.val ≤ 'Z'.val) := rfl

theorem isLower_eq (char : Char) :
    char.isLower = (decide (char.val ≥ 'a'.val) && decide (char.val ≤ 'z'.val)) := rfl

/-- A character is a capital letter and moves to its small one, or stays. -/
theorem toNat_toLower (char : Char) :
    (65 ≤ char.toNat ∧ char.toNat ≤ 90 ∧ char.toLower.toNat = char.toNat + 32) ∨
      (¬(65 ≤ char.toNat ∧ char.toNat ≤ 90) ∧ char.toLower = char) := by
  unfold Char.toLower
  split_ifs with capital
  · left
    have lower : 65 ≤ char.toNat := capital.1
    have upper : char.toNat ≤ 90 := capital.2
    refine ⟨lower, upper, ?_⟩
    change (char.val + ('a'.val - 'A'.val)).toNat = char.val.toNat + 32
    rw [UInt32.toNat_add]
    exact Nat.mod_eq_of_lt (show char.toNat + 32 < 2 ^ 32 by omega)
  · exact Or.inr ⟨capital, rfl⟩

/-- Lower-casing neither makes nor unmakes a character that is no letter. -/
theorem toLower_eq_iff
    {char other : Char}
    (notLetter : ¬(65 ≤ other.toNat ∧ other.toNat ≤ 90) ∧
      ¬(97 ≤ other.toNat ∧ other.toNat ≤ 122)) :
    char.toLower = other ↔ char = other := by
  rcases toNat_toLower char with ⟨lower, upper, moved⟩ | ⟨_, same⟩
  · constructor
    · rintro rfl
      omega
    · rintro rfl
      omega
  · rw [same]

theorem toLower_toLower (char : Char) : char.toLower.toLower = char.toLower := by
  rcases toNat_toLower char.toLower with ⟨lower, upper, _⟩ | ⟨_, same⟩
  · rcases toNat_toLower char with ⟨_, _, moved⟩ | ⟨capital, same⟩
    · omega
    · rw [same] at lower upper
      exact absurd ⟨lower, upper⟩ capital
  · exact same

@[simp] theorem asciiLower_asciiLower (text : List Char) :
    asciiLower (asciiLower text) = asciiLower text := by
  rw [asciiLower, asciiLower, List.map_map]
  exact List.map_congr_left fun char _ => toLower_toLower char

@[simp] theorem asciiLower_append (first second : List Char) :
    asciiLower (first ++ second) = asciiLower first ++ asciiLower second :=
  List.map_append

@[simp] theorem asciiLower_eq_nil {text : List Char} :
    asciiLower text = [] ↔ text = [] :=
  List.map_eq_nil_iff

/-- A character that is no letter occurs in a text as it occurs in lower case. -/
theorem mem_asciiLower
    {char : Char} {text : List Char}
    (notLetter : ¬(65 ≤ char.toNat ∧ char.toNat ≤ 90) ∧
      ¬(97 ≤ char.toNat ∧ char.toNat ≤ 122)) :
    char ∈ asciiLower text ↔ char ∈ text := by
  simp only [asciiLower, List.mem_map, toLower_eq_iff notLetter,
    exists_eq_right]

/-- A text without letters is its own lower case. -/
theorem asciiLower_eq_self
    {text : List Char}
    (noCapital : ∀ char ∈ text, ¬(65 ≤ char.toNat ∧ char.toNat ≤ 90)) :
    asciiLower text = text := by
  conv_rhs => rw [← List.map_id text]
  refine List.map_congr_left fun char member => ?_
  rcases toNat_toLower char with ⟨lower, upper, _⟩ | ⟨_, same⟩
  · exact absurd ⟨lower, upper⟩ (noCapital char member)
  · exact same

end Text
end Mailcore

/-!
## Lower-casing beyond ASCII

What holds of `str::to_lowercase` whatever the edition of Unicode: ASCII letters
become their small ones, spaces stay, and no other character becomes an ASCII
one but `i` and `k`, which the dotted capital I and the Kelvin sign become.
-/

namespace Mailcore
namespace Text

/-- What a character may become. -/
structure Image (space : Char → Bool) (char : Char) (small : List Char) : Prop where
  nonempty : small ≠ []
  ascii : char.toNat < 0x80 → small = [char.toLower]
  beyond : 0x80 ≤ char.toNat → ∀ letter ∈ small, 0x80 ≤ letter.toNat ∨ letter = 'i' ∨ letter = 'k'
  blank : space char = true → small = [char]
  solid : space char = false → ∀ letter ∈ small, space letter = false

/-- A text becomes another, character by character. -/
inductive Lowered (space : Char → Bool) : List Char → List Char → Prop
  | nil : Lowered space [] []
  | cons {char : Char} {small text lower : List Char}
      (image : Image space char small) (rest : Lowered space text lower) :
      Lowered space (char :: text) (small ++ lower)

/-- `str::to_lowercase`. -/
structure ToLowercase (space : Char → Bool) where
  apply : List Char → List Char
  lowered : ∀ text, Lowered space text (apply text)
  again : ∀ text, apply (apply text) = apply text

theorem image_toLower {space : Char → Bool}
    (noLetter : ∀ char : Char, 65 ≤ char.toNat → char.toNat ≤ 122 → space char = false)
    (char : Char) : Image space char [char.toLower] := by
  have moved := toNat_toLower char
  refine ⟨by simp, fun _ => rfl, fun far letter member => ?_, fun blank => ?_,
    fun solid letter member => ?_⟩
  · obtain rfl := List.mem_singleton.mp member
    rcases moved with ⟨-, upper, -⟩ | ⟨-, same⟩
    · omega
    · rw [same]
      exact .inl far
  · rcases moved with ⟨lower, upper, -⟩ | ⟨-, same⟩
    · rw [noLetter char lower (by omega)] at blank
      cases blank
    · rw [same]
  · obtain rfl := List.mem_singleton.mp member
    rcases moved with ⟨lower, upper, small⟩ | ⟨-, same⟩
    · exact noLetter _ (by omega) (by omega)
    · rw [same]
      exact solid

/-- `to_ascii_lowercase` is one way to lower-case. -/
def ToLowercase.ascii (space : Char → Bool)
    (noLetter : ∀ char : Char, 65 ≤ char.toNat → char.toNat ≤ 122 → space char = false) :
    ToLowercase space where
  apply := asciiLower
  lowered text := by
    induction text with
    | nil => exact .nil
    | cons char text inductionHypothesis =>
        exact .cons (image_toLower noLetter char) inductionHypothesis
  again := asciiLower_asciiLower

/-- An ASCII character that only its capital becomes. -/
def Fixed (letter : Char) : Prop :=
  letter.toNat < 0x80 ∧ letter ≠ 'i' ∧ letter ≠ 'k'

instance (letter : Char) : Decidable (Fixed letter) :=
  inferInstanceAs (Decidable (_ ∧ _))

section Lowered

variable {space : Char → Bool} {text lower : List Char}

theorem Image.of_fixed {char letter : Char} {small : List Char}
    (image : Image space char small) (member : letter ∈ small) (fixed : Fixed letter) :
    char.toNat < 0x80 ∧ small = [char.toLower] ∧ char.toLower = letter := by
  by_cases ascii : char.toNat < 0x80
  · have single := image.ascii ascii
    rw [single] at member
    exact ⟨ascii, single, (List.mem_singleton.mp member).symm⟩
  · rcases image.beyond (Nat.le_of_not_lt ascii) letter member with far | rfl | rfl
    · exact absurd fixed.1 (Nat.not_lt.mpr far)
    · exact absurd rfl fixed.2.1
    · exact absurd rfl fixed.2.2

theorem lowered_nil_iff : Lowered space text [] ↔ text = [] := by
  constructor
  · intro lowered
    generalize empty : ([] : List Char) = lower at lowered
    cases lowered with
    | nil => rfl
    | cons image rest => exact absurd (List.append_eq_nil_iff.mp empty.symm).1 image.nonempty
  · rintro rfl
    exact .nil

theorem Lowered.append {other otherLower : List Char}
    (first : Lowered space text lower) (second : Lowered space other otherLower) :
    Lowered space (text ++ other) (lower ++ otherLower) := by
  induction first with
  | nil => exact second
  | cons image rest inductionHypothesis =>
      rw [List.cons_append, List.append_assoc]
      exact .cons image inductionHypothesis

theorem Lowered.single {char : Char} {small : List Char} (image : Image space char small) :
    Lowered space [char] small := by
  have whole := Lowered.cons image Lowered.nil
  rwa [List.append_nil] at whole

/-- Both halves of a text are lowered on their own. -/
theorem Lowered.of_append {first second : List Char}
    (lowered : Lowered space (first ++ second) lower) :
    ∃ front back, lower = front ++ back ∧ Lowered space first front ∧
      Lowered space second back := by
  induction first generalizing lower with
  | nil => exact ⟨[], lower, rfl, .nil, lowered⟩
  | cons char first inductionHypothesis =>
      rw [List.cons_append] at lowered
      cases lowered with
      | cons image rest =>
          obtain ⟨front, back, rfl, leads, follows⟩ := inductionHypothesis rest
          exact ⟨_, back, (List.append_assoc _ front back).symm, .cons image leads, follows⟩

theorem Image.reverse {char : Char} {small : List Char} (image : Image space char small) :
    Image space char small.reverse where
  nonempty := by simpa using image.nonempty
  ascii ascii := by rw [image.ascii ascii]; rfl
  beyond far letter member := image.beyond far letter (List.mem_reverse.mp member)
  blank blank := by rw [image.blank blank]; rfl
  solid solid letter member := image.solid solid letter (List.mem_reverse.mp member)

theorem Lowered.reverse (lowered : Lowered space text lower) :
    Lowered space text.reverse lower.reverse := by
  induction lowered with
  | nil => exact .nil
  | cons image rest inductionHypothesis =>
      rw [List.reverse_cons, List.reverse_append]
      exact inductionHypothesis.append (.single image.reverse)

/-- The leading spaces of both are the same. -/
theorem Lowered.dropWhile (lowered : Lowered space text lower) :
    Lowered space (text.dropWhile space) (lower.dropWhile space) := by
  induction lowered with
  | nil => exact .nil
  | @cons char small text lower image rest inductionHypothesis =>
      cases blank : space char with
      | true =>
          rw [image.blank blank, List.singleton_append, List.dropWhile_cons_of_pos blank,
            List.dropWhile_cons_of_pos blank]
          exact inductionHypothesis
      | false =>
          obtain ⟨first, behind, same⟩ := List.exists_cons_of_ne_nil image.nonempty
          have solid := image.solid blank first (same ▸ List.mem_cons_self)
          have stays : (small ++ lower).dropWhile space = small ++ lower := by
            rw [same, List.cons_append, List.dropWhile_cons_of_neg (by simp [solid])]
          rw [stays, List.dropWhile_cons_of_neg (by simp [blank])]
          exact .cons image rest

theorem Lowered.rdropWhile (lowered : Lowered space text lower) :
    Lowered space (text.rdropWhile space) (lower.rdropWhile space) :=
  lowered.reverse.dropWhile.reverse

theorem Lowered.strip (lowered : Lowered space text lower) :
    Lowered space (strip space text) (strip space lower) :=
  lowered.dropWhile.rdropWhile

/-- A letter that stands on the right comes from one on the left. -/
theorem Lowered.split (front : List Char) {back : List Char} (letter : Char)
    (lowered : Lowered space text (front ++ letter :: back)) (fixed : Fixed letter) :
    ∃ before char after, text = before ++ char :: after ∧ char.toLower = letter ∧
      Lowered space before front ∧ Lowered space after back := by
  generalize same : front ++ letter :: back = lower at lowered
  induction lowered generalizing front with
  | nil => simp at same
  | @cons char small text lower image rest inductionHypothesis =>
      rcases List.append_eq_append_iff.mp same with ⟨more, here, behind⟩ | ⟨more, here, behind⟩
      · cases more with
        | nil =>
            rw [List.append_nil] at here
            subst here
            obtain ⟨before, found, after, rfl, becomes, first, second⟩ :=
              inductionHypothesis [] behind
            obtain rfl := lowered_nil_iff.mp first
            exact ⟨[char], found, after, rfl, becomes, .single image, second⟩
        | cons inside more =>
            obtain ⟨rfl, rfl⟩ := List.cons.inj behind
            have member : letter ∈ small := by
              rw [here]
              simp
            obtain ⟨-, single, becomes⟩ := image.of_fixed member fixed
            rw [single] at here
            obtain ⟨rfl, rfl⟩ : front = [] ∧ more = [] := by
              cases front with
              | nil => exact ⟨rfl, (List.cons.inj here).2.symm⟩
              | cons other front => simp at here
            exact ⟨[], char, text, rfl, becomes, .nil, rest⟩
      · obtain ⟨before, found, after, rfl, becomes, first, second⟩ :=
          inductionHypothesis _ behind.symm
        refine ⟨char :: before, found, after, rfl, becomes, ?_, second⟩
        rw [here]
        exact .cons image first

theorem fixed_of_toLower {char : Char} (fixed : Fixed char.toLower) : Fixed char := by
  refine ⟨?_, ?_, ?_⟩
  · have small := fixed.1
    rcases toNat_toLower char with ⟨-, upper, -⟩ | ⟨-, same⟩
    · omega
    · rwa [same] at small
  · rintro rfl
    exact fixed.2.1 rfl
  · rintro rfl
    exact fixed.2.2 rfl

/-- A word in front of the right stands, in some case, in front of the left. -/
theorem Lowered.front {word front back : List Char}
    (lowered : Lowered space text (front ++ back)) (same : asciiLower front = word)
    (fixed : ∀ letter ∈ word, Fixed letter) :
    ∃ before after, text = before ++ after ∧ asciiLower before = word ∧
      Lowered space after back := by
  induction word generalizing text front with
  | nil =>
      obtain rfl := List.map_eq_nil_iff.mp same
      exact ⟨[], text, rfl, rfl, lowered⟩
  | cons letter word inductionHypothesis =>
      obtain ⟨first, rest, rfl, here, behind⟩ := List.map_eq_cons_iff.mp same
      have plain : Fixed first :=
        fixed_of_toLower (here ▸ fixed letter List.mem_cons_self)
      obtain ⟨before, char, after, rfl, becomes, none_, later⟩ :=
        lowered.split [] first plain
      obtain rfl := lowered_nil_iff.mp none_
      obtain ⟨word_, rest_, rfl, read, tail⟩ := inductionHypothesis later behind
        fun other member => fixed other (List.mem_cons_of_mem _ member)
      refine ⟨char :: word_, rest_, rfl, ?_, tail⟩
      change char.toLower :: asciiLower word_ = _
      rw [read, ← here, ← becomes, toLower_toLower]

theorem Lowered.word {word : List Char} (lowered : Lowered space text lower)
    (same : asciiLower lower = word) (fixed : ∀ letter ∈ word, Fixed letter) :
    asciiLower text = word := by
  rw [← List.append_nil lower] at lowered
  obtain ⟨before, after, rfl, read, tail⟩ := lowered.front same fixed
  rw [lowered_nil_iff.mp tail, List.append_nil]
  exact read

theorem Lowered.mem {char : Char} (lowered : Lowered space text lower) (member : char ∈ text)
    (ascii : char.toNat < 0x80) : char.toLower ∈ lower := by
  induction lowered with
  | nil => cases member
  | @cons first small text lower image rest inductionHypothesis =>
      rcases List.mem_cons.mp member with rfl | behind
      · rw [image.ascii ascii]
        exact List.mem_append_left _ (List.mem_singleton_self _)
      · exact List.mem_append_right _ (inductionHypothesis behind)

/-- ASCII texts become what `to_ascii_lowercase` makes of them. -/
theorem Lowered.ascii (lowered : Lowered space text lower)
    (ascii : ∀ char ∈ text, char.toNat < 0x80) : lower = asciiLower text := by
  induction lowered with
  | nil => rfl
  | @cons first small text lower image rest inductionHypothesis =>
      rw [image.ascii (ascii first List.mem_cons_self), inductionHypothesis
        fun other member => ascii other (List.mem_cons_of_mem _ member)]
      rfl

theorem Lowered.stops (lowered : Lowered space text lower) (stops : Stops space text) :
    Stops space lower := by
  cases lowered with
  | nil => exact stops
  | @cons char small text lower image rest =>
      obtain ⟨first, behind, same⟩ := List.exists_cons_of_ne_nil image.nonempty
      rw [same]
      exact stops_cons.mpr (image.solid (stops_cons.mp stops) first (same ▸ List.mem_cons_self))

/-- Without spaces around it a text stays without them. -/
theorem Lowered.strip_eq (lowered : Lowered space text lower)
    (bare : Text.strip space text = text) : Text.strip space lower = lower := by
  refine strip_of_bare (lowered.stops fun char first => ?_) fun char last => ?_
  · rw [← bare] at first
    exact head?_strip first
  · have stops : Stops space text.reverse := by
      intro other first
      rw [List.head?_reverse, ← bare] at first
      exact getLast?_strip first
    have turned := lowered.reverse.stops stops
    exact turned char (by rwa [List.head?_reverse])

end Lowered

end Text
end Mailcore

import Mailcore.Attachments.Name
import Mailcore.Html.KeptText
import Mailcore.Text.Decimal

/-!
# Names that are safe to create

The name of an attachment is fit for a file before it is capped.  The cut alone
can leave nothing, or the bare name of a device.
-/

namespace Mailcore
namespace Attachments

open Html (byteLen truncateOnCharBoundary)
open Text (asciiLower afterLast beforeLast)

/-- A name that a file can be created under. -/
structure SafeName (name : List Char) : Prop where
  nonempty : name ≠ []
  short : byteLen name ≤ MAX_ATTACHMENT_NAME_BYTES
  unseparated : ∀ char ∈ name, isSeparator char = false
  unreserved : ∀ char ∈ name, isReserved char = false
  notDots : name ≠ ".".toList ∧ name ≠ "..".toList
  ending : name.getLast? ≠ some '.' ∧ name.getLast? ≠ some ' '
  stem : isDeviceName (stemOf name) = false

/-- A character that is neither a separator nor reserved. -/
def Plain (char : Char) : Prop :=
  isSeparator char = false ∧ isReserved char = false

instance (char : Char) : Decidable (Plain char) :=
  inferInstanceAs (Decidable (_ ∧ _))

/-- What a name has before it is capped. -/
structure Sound (name : List Char) : Prop where
  nonempty : name ≠ []
  plain : ∀ char ∈ name, Plain char
  ending : ∀ char ∈ name.getLast?, isDotOrSpace char = false
  stem : isDeviceName (stemOf name) = false

/-- What of a long name stands before the cut is not lost as trailing dots and
spaces: something of it is left unless a short extension follows, and what is
left is not the name of a device. -/
def SurvivesCut (name : List Char) : Prop :=
  byteLen name ≤ MAX_ATTACHMENT_NAME_BYTES ∨
    let (stem, ext) := splitExtension name
    let head := truncateOnCharBoundary (MAX_ATTACHMENT_NAME_BYTES - byteLen ext) stem
    (ext = [] → ¬head.all isDotOrSpace) ∧
      ∀ device blanks, head = device ++ blanks → isDeviceName device →
        ¬blanks.all isDotOrSpace

/-! ## Pieces of names -/

theorem stemOf_dot (front back : List Char) :
    stemOf (front ++ '.' :: back) = stemOf front := by
  unfold stemOf
  induction front with
  | nil => rfl
  | cons char front inductionHypothesis =>
      rw [List.cons_append, List.takeWhile_cons, List.takeWhile_cons, inductionHypothesis]

theorem stemOf_append {ext : List Char} (extension : ext = [] ∨ ext.head? = some '.')
    (front : List Char) : stemOf (front ++ ext) = stemOf front := by
  rcases extension with rfl | dotted
  · rw [List.append_nil]
  · obtain ⟨rest, rfl⟩ := List.head?_eq_some_iff.mp dotted
    exact stemOf_dot front rest

theorem eq_append_afterLast {name : List Char} (dotted : '.' ∈ name) :
    name = beforeLast '.' name ++ '.' :: afterLast '.' name := by
  obtain ⟨front, same, ends⟩ := Text.exists_append_afterLast '.' name
  rcases ends with rfl | ends
  · rw [same] at dotted
    exact absurd dotted (Text.notMem_afterLast '.' name)
  · obtain ⟨stem, rfl⟩ := List.getLast?_eq_some_iff.mp ends
    have cut : beforeLast '.' name = stem := by
      conv_lhs => rw [same, List.append_assoc]
      exact Text.beforeLast_join (Text.notMem_afterLast '.' name)
    rw [cut, ← List.singleton_append, ← List.append_assoc]
    exact same

theorem letters_of_isDeviceName {stem : List Char} (device : isDeviceName stem) :
    ∀ char ∈ stem, char ≠ '.' ∧ isDotOrSpace char = false := by
  intro char member
  have small : char.toLower ∈ asciiLower stem := List.mem_map_of_mem member
  have all := @Html.of_isOneOf _
    (fun word => word.all fun char => char != '.' && !isDotOrSpace char)
    (by decide) _ device
  have plain := List.all_eq_true.mp all _ small
  rw [Bool.and_eq_true, bne_iff_ne, Bool.not_eq_true'] at plain
  refine ⟨?_, ?_⟩
  · rintro rfl
    exact plain.1 rfl
  · rw [Bool.eq_false_iff]
    intro blank
    simp only [isDotOrSpace, Bool.or_eq_true, decide_eq_true_eq] at blank
    rcases blank with rfl | rfl
    · exact absurd plain.2 (by decide)
    · exact absurd plain.2 (by decide)

theorem length_of_isDeviceName {stem : List Char} (device : isDeviceName stem) :
    stem ≠ [] ∧ stem.length ≤ 4 := by
  have all := @Html.of_isOneOf _
    (fun word => decide (word ≠ [] ∧ word.length ≤ 4)) (by decide) _ device
  have bounds := of_decide_eq_true all
  rw [asciiLower, List.length_map] at bounds
  exact ⟨fun empty => bounds.1 (by rw [empty]; rfl), bounds.2⟩

/-! ## Before the cut -/

theorem plain_of_isAlphanum {char : Char} (letter : char.isAlphanum) : Plain char := by
  have away : ['/', '\\', ':', '*', '?', '"', '<', '>', '|'].all
      (fun other => !other.isAlphanum) := by decide
  have differs {other : Char}
      (member : other ∈ ['/', '\\', ':', '*', '?', '"', '<', '>', '|']) : char ≠ other := by
    rintro rfl
    have absent := List.all_eq_true.mp away char member
    rw [letter] at absent
    cases absent
  refine ⟨?_, ?_⟩
  · simp only [isSeparator, Bool.or_eq_false_iff, decide_eq_false_iff_not]
    exact ⟨differs (by decide), differs (by decide)⟩
  · have control : isControl char = false := by
      simp only [Char.isAlphanum, Text.isAlpha_eq, Text.isUpper_eq, Text.isLower_eq,
        Char.isDigit, Bool.or_eq_true, decide_eq_true_eq, Bool.and_eq_true, ge_iff_le,
        UInt32.le_iff_toNat_le, Char.reduceVal, UInt32.reduceToNat] at letter
      simp only [isControl, Bool.or_eq_false_iff, Bool.and_eq_false_iff,
        decide_eq_false_iff_not, Char.toNat]
      omega
    rw [isReserved, control, Bool.false_or, List.contains_eq_any_beq, List.any_eq_false]
    intro other member
    rw [beq_iff_eq]
    exact differs (List.mem_cons_of_mem _ (List.mem_cons_of_mem _ member))

theorem not_isDotOrSpace {char : Char} (letter : char.isAlphanum) :
    isDotOrSpace char = false := by
  rw [Bool.eq_false_iff]
  intro blank
  simp only [isDotOrSpace, Bool.or_eq_true, decide_eq_true_eq] at blank
  rcases blank with rfl | rfl
  · exact absurd letter (by decide)
  · exact absurd letter (by decide)

theorem plain_of_mem_repr {id : Int} {char : Char} (member : char ∈ id.repr.toList) :
    Plain char ∧ char ≠ '.' := by
  have digit {number : Nat} (inside : char ∈ number.repr.toList) :
      Plain char ∧ char ≠ '.' := by
    have read := Text.isDigit_of_mem_repr inside
    refine ⟨plain_of_isAlphanum (by rw [Char.isAlphanum, read, Bool.or_true]), ?_⟩
    rintro rfl
    exact absurd read (by decide)
  cases id with
  | ofNat number => exact digit member
  | negSucc number =>
      have shape : (Int.negSucc number).repr.toList = '-' :: (number + 1).repr.toList := by
        simp [Int.repr, String.toList_append]
      rw [shape] at member
      rcases List.mem_cons.mp member with rfl | inside
      · decide
      · exact digit inside

theorem sound_numberedAttachment (id : Int) {ext : List Char} (full : ext ≠ [])
    (letters : ext.all Char.isAlphanum) : Sound (numberedAttachment id ext) := by
  have word : "attachment-".toList.all (fun char => Plain char && char != '.') := by decide
  have long : "attachment-".toList.length = 11 := by decide
  unfold numberedAttachment
  generalize "attachment-".toList = front at word long ⊢
  rw [List.all_eq_true] at letters word
  have shape : front ++ (id.repr.toList ++ '.' :: ext) =
      (front ++ id.repr.toList) ++ '.' :: ext := (List.append_assoc _ _ _).symm
  rw [shape]
  refine ⟨by simp, ?_, ?_, ?_⟩
  · intro char member
    rw [List.mem_append, List.mem_append, List.mem_cons] at member
    rcases member with (inFront | digits) | dot | inside
    · exact of_decide_eq_true (Bool.and_eq_true_iff.mp (word char inFront)).1
    · exact (plain_of_mem_repr digits).1
    · rw [dot]
      decide
    · exact plain_of_isAlphanum (letters char inside)
  · intro char ends
    rw [List.getLast?_append_of_ne_nil _ (List.cons_ne_nil _ _),
      List.getLast?_cons_of_ne_nil full] at ends
    exact not_isDotOrSpace (letters char (List.mem_of_getLast? ends))
  · rw [Bool.eq_false_iff]
    intro device
    have stem : stemOf (front ++ id.repr.toList) = front ++ id.repr.toList := by
      rw [stemOf, List.takeWhile_eq_self_iff]
      intro char member
      rcases List.mem_append.mp member with inFront | digits
      · exact (Bool.and_eq_true_iff.mp (word char inFront)).2
      · exact bne_iff_ne.mpr (plain_of_mem_repr digits).2
    have short := (length_of_isDeviceName device).2
    rw [stemOf_dot, stem, List.length_append] at short
    omega

theorem sound_fallback (id : Int) : Sound (fallbackAttachmentName id) :=
  sound_numberedAttachment id (by decide) (by decide)

theorem ending_trimEndDots (name : List Char) :
    ∀ char ∈ (trimEndDots name).getLast?, isDotOrSpace char = false := by
  intro char last
  have nonempty : trimEndDots name ≠ [] := by
    intro empty
    rw [empty] at last
    cases last
  have bare := List.rdropWhile_last_not isDotOrSpace name nonempty
  rw [List.getLast?_eq_some_getLast nonempty, Option.mem_some_iff] at last
  rw [← last]
  exact Bool.eq_false_iff.mpr bare

theorem sound_cleanAttachmentName (name : Option (List Char)) (id : Int) :
    Sound (cleanAttachmentName name id) := by
  unfold cleanAttachmentName
  dsimp only
  have unseparated : ∀ char ∈ Html.trim ((name.getD []).rtakeWhile fun char =>
      !isSeparator char), isSeparator char = false := by
    intro char member
    have inside := List.mem_rtakeWhile_imp (Html.trim_subset _ member)
    simpa using inside
  generalize Html.trim ((name.getD []).rtakeWhile fun char => !isSeparator char) = base
    at unseparated ⊢
  have plain : ∀ char ∈ trimEndDots (base.map fun char =>
      if isReserved char then '_' else char), Plain char := by
    intro char member
    obtain ⟨before, inside, same⟩ :=
      List.mem_map.mp ((List.rdropWhile_prefix _ _).subset member)
    subst same
    split
    · decide
    · next free => exact ⟨unseparated before inside, Bool.eq_false_iff.mpr free⟩
  have ending := ending_trimEndDots (base.map fun char =>
    if isReserved char then '_' else char)
  generalize trimEndDots (base.map fun char => if isReserved char then '_' else char) =
    cleaned at plain ending ⊢
  split
  · exact sound_fallback id
  · next full =>
    have nonempty : cleaned ≠ [] := fun empty => full (.inl empty)
    split
    · refine ⟨List.cons_ne_nil _ _, ?_, ?_, ?_⟩
      · exact List.forall_mem_cons.mpr ⟨by decide, plain⟩
      · rwa [List.getLast?_cons_of_ne_nil nonempty]
      · have shape : stemOf ('_' :: cleaned) = '_' :: stemOf cleaned := rfl
        rw [shape, Bool.eq_false_iff]
        intro device
        have all := @Html.of_isOneOf _ (fun word => word.head? != some '_')
          (by decide) _ device
        exact absurd all (by simp [asciiLower])
    · next free => exact ⟨nonempty, plain, ending, Bool.eq_false_iff.mpr free⟩

/-- A sound name keeps its stem with a new extension. -/
theorem Sound.withExtension
    {front back ext : List Char} (sound : Sound (front ++ back))
    (stem : stemOf (front ++ back) = stemOf front)
    (letters : ext.all Char.isAlphanum) (full : ext ≠ []) :
    Sound (front ++ '.' :: ext) := by
  rw [List.all_eq_true] at letters
  refine ⟨by simp, ?_, ?_, ?_⟩
  · intro char member
    rw [List.mem_append, List.mem_cons] at member
    rcases member with inFront | dot | inside
    · exact sound.plain char (List.mem_append_left _ inFront)
    · rw [dot]
      decide
    · exact plain_of_isAlphanum (letters char inside)
  · intro char ends
    rw [List.getLast?_append_of_ne_nil _ (List.cons_ne_nil _ _),
      List.getLast?_cons_of_ne_nil full] at ends
    exact not_isDotOrSpace (letters char (List.mem_of_getLast? ends))
  · rw [stemOf_dot, ← stem]
    exact sound.stem

/-- The name that is capped is fit for a file but for its length. -/
theorem sound_typedAttachmentName (name mime : Option (List Char)) (id : Int) :
    Sound (typedAttachmentName name mime id) := by
  have clean := sound_cleanAttachmentName name id
  unfold typedAttachmentName
  dsimp only
  generalize cleanAttachmentName name id = named at clean ⊢
  split
  · exact clean
  · next wantExt found =>
    obtain ⟨type, -, known⟩ := Option.bind_eq_some_iff.mp found
    obtain ⟨full, letters⟩ := extensionForMime_plain known
    split
    · exact sound_numberedAttachment id full letters
    · unfold withExtension
      dsimp only
      split
      · next dotted =>
        have whole := eq_append_afterLast dotted.1
        split
        · have cut : Sound (beforeLast '.' named ++ '.' :: afterLast '.' named) := by
            rwa [← whole]
          exact cut.withExtension (stemOf_dot _ _) letters full
        · exact clean
      · have whole : Sound (named ++ []) := by rwa [List.append_nil]
        exact whole.withExtension (by rw [List.append_nil]) letters full

/-! ## The cut -/

theorem truncate_prefix (max : Nat) (text : List Char) :
    truncateOnCharBoundary max text <+: text := by
  induction text generalizing max with
  | nil => exact List.prefix_refl _
  | cons char text inductionHypothesis =>
      rw [truncateOnCharBoundary]
      split
      · exact (List.prefix_cons_inj char).mpr (inductionHypothesis _)
      · exact List.nil_prefix

theorem byteLen_truncate_le (max : Nat) (text : List Char) :
    byteLen (truncateOnCharBoundary max text) ≤ max := by
  induction text generalizing max with
  | nil => exact Nat.zero_le _
  | cons char text inductionHypothesis =>
      rw [truncateOnCharBoundary]
      split
      · have rest := inductionHypothesis (max - char.utf8Size)
        rw [Html.byteLen_cons]
        omega
      · exact Nat.zero_le _

theorem byteLen_le_of_prefix {front text : List Char} (begins : front <+: text) :
    byteLen front ≤ byteLen text := by
  obtain ⟨rest, rfl⟩ := begins
  rw [Html.byteLen_append]
  exact Nat.le_add_right _ _

/-- A name at its last dot: nothing, or an extension with its dot. -/
theorem splitExtension_cases (name : List Char) :
    splitExtension name = (name, []) ∨
      ∃ stem ext, splitExtension name = (stem, '.' :: ext) ∧ name = stem ++ '.' :: ext ∧
        byteLen ('.' :: ext) ≤ 17 := by
  unfold splitExtension
  dsimp only
  split
  · next found => exact .inr ⟨_, _, rfl, eq_append_afterLast found.1, found.2.2⟩
  · exact .inl rfl

theorem stemOf_of_device {stem : List Char} (device : isDeviceName stem) :
    stemOf stem = stem := by
  rw [stemOf, List.takeWhile_eq_self_iff]
  intro char member
  exact bne_iff_ne.mpr (letters_of_isDeviceName device char member).1

/-- Either a name has no dot, or its stem stands before one. -/
theorem stemOf_cases (name : List Char) :
    stemOf name = name ∨ ∃ rest, name = stemOf name ++ '.' :: rest := by
  have whole : name.takeWhile (· != '.') ++ name.dropWhile (· != '.') = name :=
    List.takeWhile_append_dropWhile
  cases behind : name.dropWhile (· != '.') with
  | nil =>
      left
      rw [behind, List.append_nil] at whole
      exact whole
  | cons first rest =>
      right
      have stops := Text.stops_dropWhile (· != '.') name first (by rw [behind]; rfl)
      have dot : first = '.' := by simpa using stops
      rw [behind, dot] at whole
      exact ⟨rest, whole.symm⟩

theorem trimEndDots_device {device blanks : List Char} (named : isDeviceName device)
    (blank : blanks.all isDotOrSpace) : trimEndDots (device ++ blanks) = device := by
  have ends : ∀ char ∈ device.getLast?, isDotOrSpace char = false := fun char last =>
    (letters_of_isDeviceName named char (List.mem_of_getLast? last)).2
  have gone : blanks.rdropWhile isDotOrSpace = [] :=
    List.rdropWhile_eq_nil_iff.mpr (List.all_eq_true.mp blank)
  rw [trimEndDots, Text.rdropWhile_append ends, gone, List.append_nil]

theorem Sound.safe {name : List Char} (sound : Sound name)
    (short : byteLen name ≤ MAX_ATTACHMENT_NAME_BYTES) : SafeName name := by
  refine ⟨sound.nonempty, short, fun char member => (sound.plain char member).1,
    fun char member => (sound.plain char member).2, ⟨?_, ?_⟩, ⟨?_, ?_⟩, sound.stem⟩
  · rintro rfl
    exact absurd (sound.ending '.' (by decide)) (by decide)
  · rintro rfl
    exact absurd (sound.ending '.' (by decide)) (by decide)
  · exact fun last => absurd (sound.ending '.' last) (by decide)
  · exact fun last => absurd (sound.ending ' ' last) (by decide)

/-- What is left of a long name is sound where the cut leaves something that is
no device. -/
theorem Sound.cut {stem ext head : List Char} (sound : Sound (stem ++ ext))
    (extension : ext = [] ∨ ext.head? = some '.')
    (begins : head <+: stem)
    (left : ext = [] → ¬head.all isDotOrSpace)
    (free : ∀ device blanks, head = device ++ blanks → isDeviceName device →
      ¬blanks.all isDotOrSpace) :
    Sound (trimEndDots head ++ ext) := by
  have blanks : head = trimEndDots head ++ head.rtakeWhile isDotOrSpace :=
    List.rdropWhile_append_rtakeWhile.symm
  have gone : (head.rtakeWhile isDotOrSpace).all isDotOrSpace :=
    List.all_eq_true.mpr fun char member => List.mem_rtakeWhile_imp member
  have within : trimEndDots head <+: stem := (List.rdropWhile_prefix _ _).trans begins
  refine ⟨?_, ?_, ?_, ?_⟩
  · intro empty
    obtain ⟨nothing, bare⟩ := List.append_eq_nil_iff.mp empty
    refine left bare (List.all_eq_true.mpr ?_)
    exact List.rdropWhile_eq_nil_iff.mp nothing
  · intro char member
    refine sound.plain char ?_
    rcases List.mem_append.mp member with inHead | inExt
    · exact List.mem_append_left _ (within.subset inHead)
    · exact List.mem_append_right _ inExt
  · intro char last
    rcases extension with rfl | dotted
    · rw [List.append_nil] at last
      exact ending_trimEndDots head char last
    · have full : ext ≠ [] := by
        rintro rfl
        cases dotted
      rw [List.getLast?_append_of_ne_nil _ full] at last
      exact sound.ending char (by rwa [List.getLast?_append_of_ne_nil _ full])
  · rw [stemOf_append extension, Bool.eq_false_iff]
    intro device
    rcases stemOf_cases (trimEndDots head) with whole | ⟨rest, same⟩
    · rw [whole] at device
      exact free _ _ blanks device gone
    · obtain ⟨more, rfl⟩ := within
      rw [same, List.append_assoc, List.append_assoc, List.cons_append] at sound
      have stem := sound.stem
      rw [stemOf_dot, stemOf_of_device device, device] at stem
      cases stem

/-- Cutting a sound name leaves a safe one exactly when enough stands before the
cut. -/
theorem Sound.safeName_capName_iff {name : List Char} (sound : Sound name) :
    SafeName (capName name MAX_ATTACHMENT_NAME_BYTES) ↔ SurvivesCut name := by
  unfold capName SurvivesCut
  by_cases fits : byteLen name ≤ MAX_ATTACHMENT_NAME_BYTES
  · rw [if_pos fits]
    exact ⟨fun _ => .inl fits, fun _ => sound.safe fits⟩
  rw [if_neg fits, or_iff_right fits]
  obtain ⟨extension, same, short⟩ : ((splitExtension name).2 = [] ∨
      (splitExtension name).2.head? = some '.') ∧
        name = (splitExtension name).1 ++ (splitExtension name).2 ∧
          byteLen (splitExtension name).2 ≤ 17 := by
    rcases splitExtension_cases name with whole | ⟨stem, ext, cut, same, short⟩
    · rw [whole]
      exact ⟨.inl rfl, (List.append_nil name).symm, Nat.zero_le _⟩
    · rw [cut]
      exact ⟨.inr rfl, same, short⟩
  generalize splitExtension name = parts at extension same short ⊢
  obtain ⟨stem, ext⟩ := parts
  dsimp only at extension same short ⊢
  have begins := truncate_prefix (MAX_ATTACHMENT_NAME_BYTES - byteLen ext) stem
  have room := byteLen_truncate_le (MAX_ATTACHMENT_NAME_BYTES - byteLen ext) stem
  generalize truncateOnCharBoundary (MAX_ATTACHMENT_NAME_BYTES - byteLen ext) stem = head
    at begins room ⊢
  subst same
  constructor
  · intro safe
    refine ⟨fun bare blank => safe.nonempty ?_, ?_⟩
    · rw [bare, List.append_nil]
      exact List.rdropWhile_eq_nil_iff.mpr (List.all_eq_true.mp blank)
    · rintro device blanks rfl named blank
      have stem := safe.stem
      rw [stemOf_append extension, trimEndDots_device named blank, stemOf_of_device named,
        named] at stem
      cases stem
  · rintro ⟨left, free⟩
    refine (sound.cut extension begins left free).safe ?_
    rw [Html.byteLen_append]
    have trimmed := byteLen_le_of_prefix (List.rdropWhile_prefix isDotOrSpace head)
    have cap : MAX_ATTACHMENT_NAME_BYTES = 150 := rfl
    change byteLen (trimEndDots head) ≤ byteLen head at trimmed
    omega

/-- The name of an attachment is safe to create exactly when the cut leaves
enough of it. -/
theorem safeName_iff (name mime : Option (List Char)) (id : Int) :
    SafeName (safeAttachmentNameForMime name mime id) ↔
      SurvivesCut (typedAttachmentName name mime id) :=
  (sound_typedAttachmentName name mime id).safeName_capName_iff

namespace Sample

/-- A device name behind which spaces reach past the cap. -/
def spacedDevice : List Char :=
  "con".toList ++ (List.replicate 150 ' ' ++ "x.txt".toList)

/-- The cut leaves the device and its extension. -/
theorem cut_leaves_device :
    ¬∀ name mime id, SafeName (safeAttachmentNameForMime name mime id) := by
  intro all
  have device : safeAttachmentNameForMime (some spacedDevice) none 1 = "con.txt".toList := by
    decide +kernel
  have stem := (all (some spacedDevice) none 1).stem
  rw [device] at stem
  exact absurd stem (by decide)

/-- Of a name that begins with dots nothing is left. -/
example : safeAttachmentNameForMime
    (some (List.replicate 150 '.' ++ List.replicate 18 'a')) none 1 = [] := by
  decide +kernel

end Sample

end Attachments
end Mailcore

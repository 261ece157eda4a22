import Mathlib.Data.List.DropRight
import Mathlib.Data.List.Infix

/-!
# Cutting texts

Texts cut at their ends, at a separator and at a pattern, and where the pieces
of a text put together from parts lie.
-/

namespace Mailcore
namespace Text

variable {α : Type}

/-- Without the marked letters at both ends. -/
def strip (marked : α → Bool) (text : List α) : List α :=
  (text.dropWhile marked).rdropWhile marked

/-- `str::split_once` at a pattern. -/
def splitOnceAt [DecidableEq α]
    (pattern : List α) : List α → Option (List α × List α)
  | [] => if pattern = [] then some ([], []) else none
  | letter :: text =>
      if pattern.isPrefixOf (letter :: text) then
        some ([], (letter :: text).drop pattern.length)
      else
        (splitOnceAt pattern text).map fun cut => (letter :: cut.1, cut.2)

/-- What stands behind the last occurrence of a letter, or the whole text. -/
def afterLast [DecidableEq α] (separator : α) (text : List α) : List α :=
  text.rtakeWhile (· != separator)

/-- What stands in front of the last occurrence of a letter. -/
def beforeLast [DecidableEq α] (separator : α) (text : List α) : List α :=
  (text.rdropWhile (· != separator)).dropLast

/-- `str::strip_suffix` at a letter, the text unchanged where it is missing. -/
def dropSuffix [DecidableEq α] (letter : α) (text : List α) : List α :=
  if text.getLast? = some letter then text.dropLast else text

/-- Whether a text begins with a letter at which a run of the allowed ones
ends. -/
def Stops (allowed : α → Bool) (text : List α) : Prop :=
  ∀ letter ∈ text.head?, allowed letter = false

theorem stops_nil (allowed : α → Bool) : Stops allowed [] := by
  simp [Stops]

theorem stops_cons {allowed : α → Bool} {letter : α} {text : List α} :
    Stops allowed (letter :: text) ↔ allowed letter = false := by
  simp [Stops]

theorem stops_dropWhile (allowed : α → Bool) (text : List α) :
    Stops allowed (text.dropWhile allowed) := by
  intro letter first
  rw [Option.mem_def] at first
  have last := List.head?_dropWhile_not allowed text
  rw [first] at last
  simpa using last

theorem takeWhile_append_of_stops
    {allowed : α → Bool} {run rest : List α}
    (all : ∀ letter ∈ run, allowed letter)
    (stops : Stops allowed rest) :
    (run ++ rest).takeWhile allowed = run := by
  rw [List.takeWhile_append_of_pos all]
  cases rest with
  | nil => simp
  | cons letter rest => simp [stops_cons.mp stops]

theorem dropWhile_append_of_stops
    {allowed : α → Bool} {run rest : List α}
    (all : ∀ letter ∈ run, allowed letter)
    (stops : Stops allowed rest) :
    (run ++ rest).dropWhile allowed = rest := by
  rw [List.dropWhile_append_of_pos all]
  cases rest with
  | nil => simp
  | cons letter rest => simp [stops_cons.mp stops]

/-- A run ends within the front or at the stop behind it. -/
theorem takeWhile_append_stops
    {allowed : α → Bool} {rest : List α}
    (front : List α)
    (stops : Stops allowed rest) :
    (front ++ rest).takeWhile allowed = front.takeWhile allowed := by
  induction front with
  | nil =>
      have all : ∀ letter ∈ ([] : List α), allowed letter := by simp
      exact takeWhile_append_of_stops all stops
  | cons letter front inductionHypothesis =>
      rw [List.cons_append, List.takeWhile_cons, List.takeWhile_cons, inductionHypothesis]

theorem dropWhile_append_stops
    {allowed : α → Bool} {rest : List α}
    (front : List α)
    (stops : Stops allowed rest) :
    (front ++ rest).dropWhile allowed = front.dropWhile allowed ++ rest := by
  induction front with
  | nil =>
      have all : ∀ letter ∈ ([] : List α), allowed letter := by simp
      exact dropWhile_append_of_stops all stops
  | cons letter front inductionHypothesis =>
      rw [List.cons_append, List.dropWhile_cons, List.dropWhile_cons, inductionHypothesis]
      split_ifs <;> rfl

theorem dropWhile_of_stops
    {allowed : α → Bool} {text : List α}
    (stops : Stops allowed text) :
    text.dropWhile allowed = text :=
  dropWhile_append_of_stops
    (show ∀ letter ∈ ([] : List α), allowed letter by simp) stops

theorem Stops.append
    {allowed : α → Bool} {text : List α}
    (stops : Stops allowed text)
    (nonempty : text ≠ [])
    (rest : List α) :
    Stops allowed (text ++ rest) := by
  intro letter first
  rw [List.head?_append_of_ne_nil _ nonempty] at first
  exact stops letter first

theorem rdropWhile_of_bare
    {marked : α → Bool} {text : List α}
    (last : ∀ letter ∈ text.getLast?, marked letter = false) :
    text.rdropWhile marked = text := by
  rw [List.rdropWhile_eq_self_iff]
  intro nonempty
  rw [Bool.not_eq_true]
  exact last _ (List.getLast?_eq_some_getLast nonempty)

theorem rdropWhile_append
    {marked : α → Bool} {text : List α}
    (last : ∀ letter ∈ text.getLast?, marked letter = false)
    (rest : List α) :
    (text ++ rest).rdropWhile marked = text ++ rest.rdropWhile marked := by
  induction rest using List.reverseRecOn with
  | nil => simp [rdropWhile_of_bare last]
  | append_singleton rest letter inductionHypothesis =>
      rw [← List.append_assoc, List.rdropWhile_concat, List.rdropWhile_concat]
      split
      · exact inductionHypothesis
      · rw [List.append_assoc]

theorem strip_of_bare
    {marked : α → Bool} {text : List α}
    (first : Stops marked text)
    (last : ∀ letter ∈ text.getLast?, marked letter = false) :
    strip marked text = text := by
  rw [strip, dropWhile_of_stops first, rdropWhile_of_bare last]

theorem head?_strip
    {marked : α → Bool} {text : List α} {letter : α}
    (first : (strip marked text).head? = some letter) :
    marked letter = false := by
  have within : (strip marked text) <+: text.dropWhile marked :=
    List.rdropWhile_prefix marked _
  obtain ⟨rest, same⟩ := within
  apply stops_dropWhile marked text
  rw [Option.mem_def, ← same, List.head?_append, first, Option.some_or]

theorem getLast?_strip
    {marked : α → Bool} {text : List α} {letter : α}
    (last : (strip marked text).getLast? = some letter) :
    marked letter = false := by
  have nonempty : strip marked text ≠ [] := by
    intro empty
    simp [empty] at last
  have bare := List.rdropWhile_last_not marked (text.dropWhile marked) nonempty
  rw [List.getLast?_eq_some_getLast nonempty, Option.some.injEq] at last
  rw [← last]
  simpa [strip] using bare

/-- Letters that are not marked are not cut off. -/
theorem mem_strip
    {marked : α → Bool} {text : List α} {letter : α}
    (member : letter ∈ text)
    (kept : marked letter = false) :
    letter ∈ strip marked text := by
  have solid : ¬marked letter = true := by simp [kept]
  have first : letter ∈ text.dropWhile marked := by
    rw [← List.takeWhile_append_dropWhile (p := marked) (l := text)] at member
    rcases List.mem_append.mp member with cut | inside
    · exact absurd (List.mem_takeWhile_imp cut) solid
    · exact inside
  rw [← List.rdropWhile_append_rtakeWhile (p := marked) (l := text.dropWhile marked)] at first
  rcases List.mem_append.mp first with inside | cut
  · exact inside
  · exact absurd (List.mem_rtakeWhile_imp cut) solid

/-- Cutting the ends off twice is cutting them off once. -/
@[simp] theorem strip_strip (marked : α → Bool) (text : List α) :
    strip marked (strip marked text) = strip marked text :=
  strip_of_bare (fun _ => head?_strip) (fun _ => getLast?_strip)

/-- What is cut off the end of a text whose front is bare comes from behind
that front. -/
theorem strip_append
    {marked : α → Bool} {text rest : List α}
    (first : Stops marked text)
    (last : ∀ letter ∈ text.getLast?, marked letter = false)
    (nonempty : text ≠ []) :
    strip marked (text ++ rest) = text ++ rest.rdropWhile marked := by
  rw [strip, dropWhile_of_stops (first.append nonempty rest),
    rdropWhile_append last]

section Separator

variable [DecidableEq α]

theorem takeWhile_ne_append
    {separator : α} {front : List α}
    (missing : separator ∉ front)
    (back : List α) :
    (front ++ separator :: back).takeWhile (· != separator) = front := by
  refine takeWhile_append_of_stops (fun letter member => ?_) (by simp [Stops])
  rw [bne_iff_ne]
  rintro rfl
  exact missing member

theorem dropWhile_ne_append
    {separator : α} {front : List α}
    (missing : separator ∉ front)
    (back : List α) :
    (front ++ separator :: back).dropWhile (· != separator) = separator :: back := by
  refine dropWhile_append_of_stops (fun letter member => ?_) (by simp [Stops])
  rw [bne_iff_ne]
  rintro rfl
  exact missing member

theorem afterLast_of_notMem
    {separator : α} {text : List α}
    (missing : separator ∉ text) :
    afterLast separator text = text := by
  rw [afterLast, List.rtakeWhile_eq_self_iff]
  intro letter member
  rw [bne_iff_ne]
  rintro rfl
  exact missing member

theorem notMem_afterLast (separator : α) (text : List α) :
    separator ∉ afterLast separator text := by
  intro member
  have differs := List.mem_rtakeWhile_imp member
  simp at differs

/-- What stands in front of a text with the separator at its end does not
change what stands behind the last one. -/
theorem afterLast_append
    {separator : α} {front text : List α}
    (missing : separator ∉ text)
    (ends : front = [] ∨ front.getLast? = some separator) :
    afterLast separator (front ++ text) = text := by
  rcases ends with rfl | ends
  · exact afterLast_of_notMem missing
  · rw [afterLast, List.rtakeWhile, List.reverse_append]
    have stops : Stops (· != separator) front.reverse := by
      intro letter first
      rw [List.head?_reverse, ends, Option.mem_def, Option.some.injEq] at first
      simp [← first]
    rw [takeWhile_append_of_stops _ stops, List.reverse_reverse]
    intro letter member
    rw [bne_iff_ne]
    rintro rfl
    exact missing (List.mem_reverse.mp member)

/-- A text is what stands up to its last separator and what stands behind. -/
theorem exists_append_afterLast (separator : α) (text : List α) :
    ∃ front, text = front ++ afterLast separator text ∧
      (front = [] ∨ front.getLast? = some separator) := by
  refine ⟨text.rdropWhile (· != separator), ?_, ?_⟩
  · exact List.rdropWhile_append_rtakeWhile.symm
  · by_cases empty : text.rdropWhile (· != separator) = []
    · exact Or.inl empty
    · right
      have last := List.rdropWhile_last_not (· != separator) text empty
      rw [List.getLast?_eq_some_getLast empty]
      simpa using last

/-- Both sides of the only separator. -/
theorem afterLast_join
    {separator : α} {front back : List α}
    (missing : separator ∉ back) :
    afterLast separator (front ++ separator :: back) = back := by
  rw [List.append_cons]
  exact afterLast_append missing (Or.inr (by simp))

theorem beforeLast_join
    {separator : α} {front back : List α}
    (missing : separator ∉ back) :
    beforeLast separator (front ++ separator :: back) = front := by
  have behind : back.rdropWhile (· != separator) = [] := by
    rw [List.rdropWhile_eq_nil_iff]
    intro letter member
    rw [bne_iff_ne]
    rintro rfl
    exact missing member
  rw [beforeLast, List.append_cons, rdropWhile_append (by simp), behind,
    List.append_nil, List.dropLast_concat]

theorem splitOnceAt_prefix
    {pattern : List α}
    (nonempty : pattern ≠ [])
    (text : List α) :
    splitOnceAt pattern (pattern ++ text) = some ([], text) := by
  cases pattern with
  | nil => exact absurd rfl nonempty
  | cons letter pattern =>
      have begins : (letter :: pattern).isPrefixOf
          (letter :: (pattern ++ text)) = true := by
        simp
      rw [List.cons_append, splitOnceAt, if_pos begins]
      simp

theorem splitOnceAt_cons
    {pattern : List α} {letter : α} {text : List α}
    (differs : pattern.head? ≠ some letter)
    (nonempty : pattern ≠ []) :
    splitOnceAt pattern (letter :: text) =
      (splitOnceAt pattern text).map fun cut => (letter :: cut.1, cut.2) := by
  have apart : pattern.isPrefixOf (letter :: text) = false := by
    cases pattern with
    | nil => exact absurd rfl nonempty
    | cons first pattern =>
        have unequal : first ≠ letter := by simpa using differs
        simp [List.isPrefixOf, unequal]
  rw [splitOnceAt, apart, if_neg Bool.false_ne_true]

/-- A text is cut at its first separator. -/
theorem splitOnceAt_separator
    {separator : α} {front : List α}
    (missing : separator ∉ front)
    (back : List α) :
    splitOnceAt [separator] (front ++ separator :: back) = some (front, back) := by
  induction front with
  | nil => exact splitOnceAt_prefix (List.cons_ne_nil _ _) back
  | cons letter front inductionHypothesis =>
      have differs : [separator].head? ≠ some letter := by
        intro same
        exact missing (Option.some.inj same ▸ List.mem_cons_self)
      rw [List.cons_append, splitOnceAt_cons differs (List.cons_ne_nil _ _),
        inductionHypothesis fun member => missing (List.mem_cons_of_mem _ member)]
      rfl

/-- Every letter but the separator lies in a piece. -/
theorem exists_mem_splitOn
    {separator letter : α} {text : List α}
    (member : letter ∈ text)
    (differs : letter ≠ separator) :
    ∃ piece ∈ text.splitOn separator, letter ∈ piece := by
  induction text with
  | nil => simp at member
  | cons first text inductionHypothesis =>
      obtain ⟨piece, pieces, cut⟩ :=
        List.exists_cons_of_ne_nil (List.splitOn_ne_nil separator text)
      rw [List.splitOn_cons_eq_if_modifyHead, cut]
      rw [cut] at inductionHypothesis
      rcases List.mem_cons.mp member with rfl | member
      · rw [if_neg (by simpa using differs)]
        exact ⟨letter :: piece, by simp, by simp⟩
      · obtain ⟨found, within, has⟩ := inductionHypothesis member
        split
        · exact ⟨found, List.mem_cons_of_mem _ within, has⟩
        · rcases List.mem_cons.mp within with rfl | within
          · exact ⟨first :: found, by simp, List.mem_cons_of_mem _ has⟩
          · exact ⟨found, by simp [within], has⟩

/-- A piece has only letters of the text, and not the separator. -/
theorem mem_of_mem_splitOn
    {separator letter : α} {text piece : List α}
    (within : piece ∈ text.splitOn separator)
    (has : letter ∈ piece) :
    letter ∈ text ∧ letter ≠ separator := by
  induction text generalizing piece with
  | nil =>
      rw [List.splitOn_nil, List.mem_singleton] at within
      simp [within] at has
  | cons first text inductionHypothesis =>
      obtain ⟨front, pieces, cut⟩ :=
        List.exists_cons_of_ne_nil (List.splitOn_ne_nil separator text)
      rw [List.splitOn_cons_eq_if_modifyHead, cut] at within
      rw [cut] at inductionHypothesis
      split at within
      · rcases List.mem_cons.mp within with rfl | within
        · simp at has
        · have found := inductionHypothesis within has
          exact ⟨List.mem_cons_of_mem _ found.1, found.2⟩
      · rename_i other
        rcases List.mem_cons.mp within with rfl | within
        · rcases List.mem_cons.mp has with rfl | has
          · exact ⟨List.mem_cons_self, by simpa using other⟩
          · have found := inductionHypothesis List.mem_cons_self has
            exact ⟨List.mem_cons_of_mem _ found.1, found.2⟩
        · have found := inductionHypothesis (List.mem_cons_of_mem _ within) has
          exact ⟨List.mem_cons_of_mem _ found.1, found.2⟩

/-- The last letter, unless it is the separator, ends a piece. -/
theorem exists_getLast?_splitOn
    {separator letter : α} {text : List α}
    (last : text.getLast? = some letter)
    (differs : letter ≠ separator) :
    ∃ piece ∈ text.splitOn separator, piece.getLast? = some letter := by
  induction text with
  | nil => simp at last
  | cons first text inductionHypothesis =>
      obtain ⟨piece, pieces, cut⟩ :=
        List.exists_cons_of_ne_nil (List.splitOn_ne_nil separator text)
      rw [List.splitOn_cons_eq_if_modifyHead, cut]
      rw [cut] at inductionHypothesis
      by_cases empty : text = []
      · subst empty
        obtain rfl : first = letter := by simpa using last
        obtain ⟨rfl, rfl⟩ : [] = piece ∧ [] = pieces := by
          simpa [List.splitOn_nil] using cut
        rw [if_neg (by simpa using differs)]
        exact ⟨[first], by simp, rfl⟩
      · rw [List.getLast?_cons_of_ne_nil empty] at last
        obtain ⟨found, within, ends⟩ := inductionHypothesis last
        split
        · exact ⟨found, List.mem_cons_of_mem _ within, ends⟩
        · rcases List.mem_cons.mp within with rfl | within
          · refine ⟨first :: found, by simp, ?_⟩
            rw [List.getLast?_cons_of_ne_nil (by rintro rfl; simp at ends), ends]
          · exact ⟨found, by simp [within], ends⟩

/-- A text is the two sides of its first pattern. -/
theorem eq_append_of_splitOnceAt
    {pattern text front back : List α}
    (cut : splitOnceAt pattern text = some (front, back)) :
    text = front ++ pattern ++ back := by
  induction text generalizing front with
  | nil =>
      rw [splitOnceAt] at cut
      split_ifs at cut with empty
      obtain ⟨rfl, rfl⟩ : [] = front ∧ [] = back := by simpa using cut
      simp [empty]
  | cons letter text inductionHypothesis =>
      rw [splitOnceAt] at cut
      split_ifs at cut with begins
      · obtain ⟨rfl, rfl⟩ : [] = front ∧
            (letter :: text).drop pattern.length = back := by
          simpa using cut
        obtain ⟨rest, same⟩ := List.isPrefixOf_iff_prefix.mp begins
        rw [← same, List.drop_left, List.nil_append]
      · obtain ⟨⟨front, rest⟩, within, same⟩ := Option.map_eq_some_iff.mp cut
        obtain ⟨rfl, rfl⟩ := Prod.mk.inj same
        rw [inductionHypothesis within]
        simp

/-- In front of the first separator there is none. -/
theorem notMem_of_splitOnceAt
    {separator : α} {text front back : List α}
    (cut : splitOnceAt [separator] text = some (front, back)) :
    separator ∉ front := by
  have member : separator ∈ text := by
    rw [eq_append_of_splitOnceAt cut]
    simp
  obtain ⟨first, rest, same, missing⟩ := List.eq_append_cons_of_mem member
  rw [same, splitOnceAt_separator missing] at cut
  obtain ⟨rfl, rfl⟩ := Prod.mk.inj (Option.some.inj cut)
  exact missing

theorem splitOnceAt_none
    {pattern text : List α} {letter : α}
    (inside : letter ∈ pattern)
    (missing : letter ∉ text) :
    splitOnceAt pattern text = none := by
  rw [Option.eq_none_iff_forall_not_mem]
  rintro ⟨front, back⟩ cut
  rw [eq_append_of_splitOnceAt cut] at missing
  exact missing (by simp [inside])

end Separator

end Text
end Mailcore

/-!
## What cutting the ends off leaves

Letters that are not cut off keep their number, and one in the middle keeps the
two ends apart.
-/

namespace Mailcore
namespace Text

variable {α : Type} {marked : α → Bool} {letter : α}

section Count

variable [DecidableEq α]

theorem count_dropWhile (kept : marked letter = false) (text : List α) :
    (text.dropWhile marked).count letter = text.count letter := by
  have none : (text.takeWhile marked).count letter = 0 :=
    List.count_eq_zero_of_not_mem fun member => by
      simpa [kept] using List.mem_takeWhile_imp member
  conv_rhs => rw [← List.takeWhile_append_dropWhile (p := marked) (l := text), List.count_append]
  omega

theorem count_rdropWhile (kept : marked letter = false) (text : List α) :
    (text.rdropWhile marked).count letter = text.count letter := by
  rw [List.rdropWhile, List.count_reverse, count_dropWhile kept, List.count_reverse]

theorem count_strip (kept : marked letter = false) (text : List α) :
    (strip marked text).count letter = text.count letter := by
  rw [strip, count_rdropWhile kept, count_dropWhile kept]

end Count

theorem strip_separator (kept : marked letter = false) (front back : List α) :
    strip marked (front ++ letter :: back) =
      front.dropWhile marked ++ letter :: back.rdropWhile marked := by
  have last : ∀ final ∈ (front.dropWhile marked ++ [letter]).getLast?, marked final = false := by
    simp [kept]
  rw [strip, dropWhile_append_stops front (stops_cons.mpr kept), List.append_cons,
    rdropWhile_append last, List.append_assoc, List.singleton_append]

theorem strip_dropWhile (marked : α → Bool) (text : List α) :
    strip marked (text.dropWhile marked) = strip marked text := by
  rw [strip, strip, List.dropWhile_idempotent]

theorem strip_rdropWhile (marked : α → Bool) (text : List α) :
    strip marked (text.rdropWhile marked) = strip marked text := by
  induction text using List.reverseRecOn with
  | nil => rfl
  | append_singleton text letter inductionHypothesis =>
      rw [List.rdropWhile_concat]
      split_ifs with cut
      · rw [inductionHypothesis, strip, strip, List.dropWhile_append]
        split_ifs with empty
        · rw [List.isEmpty_iff.mp empty, List.dropWhile_cons_of_pos cut, List.dropWhile_nil]
        · rw [List.rdropWhile_concat_pos _ _ _ cut]
      · rfl

end Text
end Mailcore

/-!
## Segments

Texts cut at every occurrence of a pattern, and put together again.
-/

namespace Mailcore
namespace Text

variable {α : Type} [DecidableEq α]

/-- At most so many cuts. -/
def segmentsIn (pattern : List α) : Nat → List α → List (List α)
  | 0, text => [text]
  | fuel + 1, text =>
      match splitOnceAt pattern text with
      | none => [text]
      | some (front, back) => front :: segmentsIn pattern fuel back

/-- `str::split` at a pattern that is not empty. -/
def segments (pattern text : List α) : List (List α) :=
  segmentsIn pattern text.length text

theorem segmentsIn_ne_nil (pattern : List α) (fuel : Nat) (text : List α) :
    segmentsIn pattern fuel text ≠ [] := by
  cases fuel with
  | zero => simp [segmentsIn]
  | succ fuel =>
      rw [segmentsIn]
      split <;> simp

/-- Joined again, the segments are the text. -/
theorem intercalate_segmentsIn (pattern : List α) (fuel : Nat) (text : List α) :
    pattern.intercalate (segmentsIn pattern fuel text) = text := by
  induction fuel generalizing text with
  | zero => simp [segmentsIn]
  | succ fuel inductionHypothesis =>
      rw [segmentsIn]
      split
      · simp
      · rename_i front back cut
        rw [List.intercalate_cons_of_ne_nil (segmentsIn_ne_nil _ _ _),
          inductionHypothesis, eq_append_of_splitOnceAt cut]

theorem length_lt_of_splitOnceAt
    {pattern text front back : List α}
    (nonempty : pattern ≠ [])
    (cut : splitOnceAt pattern text = some (front, back)) :
    back.length < text.length := by
  have positive := List.length_pos_iff.mpr nonempty
  rw [eq_append_of_splitOnceAt cut]
  simp only [List.length_append]
  omega

/-- As many cuts as there are letters are enough: no segment can be cut. -/
theorem splitOnceAt_getLast?_segmentsIn
    {pattern : List α}
    (nonempty : pattern ≠ [])
    {fuel : Nat} {text : List α}
    (enough : text.length ≤ fuel) :
    ∀ last ∈ (segmentsIn pattern fuel text).getLast?,
      splitOnceAt pattern last = none := by
  induction fuel generalizing text with
  | zero =>
      obtain rfl : text = [] := List.length_eq_zero_iff.mp (Nat.le_zero.mp enough)
      simp [segmentsIn, splitOnceAt, nonempty]
  | succ fuel inductionHypothesis =>
      rw [segmentsIn]
      split
      · rename_i whole
        simpa using whole
      · rename_i front back cut
        have less := length_lt_of_splitOnceAt nonempty cut
        rw [List.getLast?_cons_of_ne_nil (segmentsIn_ne_nil _ _ _)]
        exact inductionHypothesis (by omega)

omit [DecidableEq α] in
/-- Without its last segment a text is shorter. -/
theorem length_intercalate_dropLast
    {pattern : List α}
    (nonempty : pattern ≠ [])
    {parts : List (List α)}
    (several : 2 ≤ parts.length) :
    (pattern.intercalate parts.dropLast).length < (pattern.intercalate parts).length := by
  have positive := List.length_pos_iff.mpr nonempty
  induction parts with
  | nil => simp at several
  | cons first parts inductionHypothesis =>
      cases parts with
      | nil => simp at several
      | cons second parts =>
          rw [List.dropLast_cons_cons, List.intercalate_cons_cons]
          cases parts with
          | nil =>
              simp only [List.dropLast_singleton, List.intercalate_singleton,
                List.length_append]
              omega
          | cons third parts =>
              have shorter := inductionHypothesis (by simp)
              rw [List.dropLast_cons_cons] at shorter ⊢
              rw [List.intercalate_cons_cons]
              simp only [List.length_append]
              omega

end Text
end Mailcore

/-!
## Windows and lines

All parts of one length of a text, and the lines of a text with a marker in
front of each.
-/

namespace Mailcore
namespace Text

variable {α : Type}

/-- `slice::windows`. -/
def windows (size : Nat) : List α → List (List α)
  | [] => []
  | letter :: text =>
      if text.length + 1 < size then []
      else (letter :: text).take size :: windows size text

/-- The windows of the length of a word hold it where the text does. -/
theorem mem_windows {word : List α} (nonempty : word ≠ []) (text : List α) :
    word ∈ windows word.length text ↔ word <:+: text := by
  induction text with
  | nil => simp [windows, nonempty]
  | cons letter text inductionHypothesis =>
      rw [windows, List.infix_cons_iff]
      by_cases short : text.length + 1 < word.length
      · rw [if_pos short]
        refine iff_of_false List.not_mem_nil ?_
        rintro (starts | inside)
        · have most := starts.length_le
          rw [List.length_cons] at most
          omega
        · have most := inside.length_le
          omega
      · rw [if_neg short, List.mem_cons, inductionHypothesis]
        refine or_congr ?_ Iff.rfl
        rw [List.prefix_iff_eq_take]

section Lines

variable [DecidableEq α] {mark : α} {word : List α}

/-- The first line of a text is what stands in front of the first mark. -/
theorem prefix_head_splitOn (apart : mark ∉ word) {text line : List α} {lines : List (List α)}
    (cut : text.splitOn mark = line :: lines) : word <+: text ↔ word <+: line := by
  induction text generalizing word line lines with
  | nil =>
      rw [List.splitOn_nil] at cut
      rw [← (List.cons.inj cut).1]
  | cons letter text inductionHypothesis =>
      cases word with
      | nil => simp
      | cons first word =>
          rw [List.mem_cons, not_or] at apart
          obtain ⟨head, tail, shape⟩ :=
            List.exists_cons_of_ne_nil (List.splitOn_ne_nil mark text)
          rw [List.splitOn_cons_eq_if_modifyHead, shape] at cut
          by_cases here : letter = mark
          · subst here
            rw [if_pos (by simp)] at cut
            rw [← (List.cons.inj cut).1, List.cons_prefix_cons]
            exact iff_of_false (fun both => apart.1 both.1.symm) (by simp)
          · rw [if_neg (by simpa using here), List.modifyHead_cons] at cut
            rw [← (List.cons.inj cut).1, List.cons_prefix_cons, List.cons_prefix_cons,
              inductionHypothesis apart.2 shape]

/-- A marked word stands in a text where a line behind the first starts with
it. -/
theorem infix_iff_mem_tail_splitOn (apart : mark ∉ word) (text : List α) :
    mark :: word <:+: text ↔ ∃ line ∈ (text.splitOn mark).tail, word <+: line := by
  induction text with
  | nil => simp [List.splitOn_nil]
  | cons letter text inductionHypothesis =>
      obtain ⟨head, tail, shape⟩ := List.exists_cons_of_ne_nil (List.splitOn_ne_nil mark text)
      rw [List.splitOn_cons_eq_if_modifyHead, List.infix_cons_iff, inductionHypothesis, shape,
        List.cons_prefix_cons, prefix_head_splitOn apart shape]
      by_cases here : letter = mark
      · subst here
        simp
      · have differs : ¬mark = letter := fun same => here same.symm
        simp [here, differs]

/-- With a mark in front every line counts. -/
theorem infix_cons_iff_mem_splitOn (apart : mark ∉ word) (text : List α) :
    mark :: word <:+: mark :: text ↔ ∃ line ∈ text.splitOn mark, word <+: line := by
  rw [infix_iff_mem_tail_splitOn apart, List.splitOn_cons_eq_if_modifyHead]
  simp

end Lines

/-- A map that neither makes nor unmakes the separator maps the pieces. -/
theorem splitOn_map {β : Type} [DecidableEq α] [DecidableEq β] {mark : α} {image : β}
    {change : α → β} (same : ∀ letter, change letter = image ↔ letter = mark) (text : List α) :
    (text.map change).splitOn image = (text.splitOn mark).map (List.map change) := by
  induction text with
  | nil => simp [List.splitOn_nil]
  | cons letter text inductionHypothesis =>
      rw [List.map_cons, List.splitOn_cons_eq_if_modifyHead, List.splitOn_cons_eq_if_modifyHead,
        inductionHypothesis]
      obtain ⟨head, tail, shape⟩ := List.exists_cons_of_ne_nil (List.splitOn_ne_nil mark text)
      rw [shape]
      by_cases here : letter = mark
      · have equal : change letter = image := (same letter).mpr here
        rw [if_pos (by simpa using equal), if_pos (by simpa using here)]
        simp
      · have apart : ¬change letter = image := fun equal => here ((same letter).mp equal)
        simp [here, apart]

end Text
end Mailcore

/-!
## What is left of the pieces

A text cut at a separator, its pieces without the marked letters at their ends,
and of these the ones that hold anything.
-/

namespace Mailcore
namespace Text

section Pieces

variable {α : Type} {marked drops : α → Bool}

/-- What is left of a list of pieces. -/
def leftOf (marked : α → Bool) (parts : List (List α)) : List (List α) :=
  (parts.map (strip marked)).filter (· ≠ [])

theorem leftOf_append (first second : List (List α)) :
    leftOf marked (first ++ second) = leftOf marked first ++ leftOf marked second := by
  rw [leftOf, List.map_append, List.filter_append]
  rfl

theorem leftOf_flatten (groups : List (List (List α))) :
    leftOf marked groups.flatten = (groups.map (leftOf marked)).flatten := by
  induction groups with
  | nil => rfl
  | cons group groups inductionHypothesis =>
      rw [List.flatten_cons, leftOf_append, inductionHypothesis, List.map_cons,
        List.flatten_cons]

theorem leftOf_congr {first second : List (List α)}
    (same : first.map (strip marked) = second.map (strip marked)) :
    leftOf marked first = leftOf marked second := by
  rw [leftOf, leftOf, same]

theorem leftOf_singleton_nil : leftOf marked [([] : List α)] = [] := by
  rw [leftOf, List.map_singleton, List.filter_singleton]
  rfl

theorem strip_cons_of_marked {letter : α} (blank : marked letter) (text : List α) :
    strip marked (letter :: text) = strip marked text := by
  rw [strip, strip, List.dropWhile_cons_of_pos blank]

theorem strip_concat_of_marked {letter : α} (blank : marked letter) (text : List α) :
    strip marked (text ++ [letter]) = strip marked text := by
  rw [strip, strip, List.dropWhile_append]
  split_ifs with empty
  · rw [List.isEmpty_iff.mp empty, List.dropWhile_cons_of_pos blank]
    rfl
  · exact List.rdropWhile_concat_pos _ _ _ blank

/-- What cuts stands in no piece. -/
theorem not_cut_of_mem_splitOnP {cuts : α → Bool} {text piece : List α}
    (member : piece ∈ text.splitOnP cuts) : ∀ letter ∈ piece, cuts letter = false := by
  induction text generalizing piece with
  | nil =>
      rw [List.splitOnP_nil] at member
      rw [List.mem_singleton.mp member]
      exact fun _ inside => absurd inside List.not_mem_nil
  | cons letter text inductionHypothesis =>
      rw [List.splitOnP_cons_eq_if_modifyHead] at member
      split_ifs at member with here
      · rcases List.mem_cons.mp member with rfl | later
        · exact fun _ inside => absurd inside List.not_mem_nil
        · exact inductionHypothesis later
      · obtain ⟨head, tail, shape⟩ := List.exists_cons_of_ne_nil (List.splitOnP_ne_nil cuts text)
        rw [shape] at member inductionHypothesis
        rw [List.modifyHead_cons] at member
        rcases List.mem_cons.mp member with rfl | later
        · exact List.forall_mem_cons.mpr
            ⟨by simpa using here, inductionHypothesis List.mem_cons_self⟩
        · exact inductionHypothesis (List.mem_cons_of_mem _ later)

variable [DecidableEq α] {mark : α}

/-- What is left of the pieces of a text. -/
def pieces (marked : α → Bool) (mark : α) (text : List α) : List (List α) :=
  leftOf marked (text.splitOn mark)

theorem notMem_of_mem_splitOn {text piece : List α} (member : piece ∈ text.splitOn mark) :
    mark ∉ piece := by
  intro inside
  rw [List.splitOn] at member
  have plain := not_cut_of_mem_splitOnP member mark inside
  rw [beq_self_eq_true] at plain
  cases plain

theorem length_splitOn (text : List α) :
    (text.splitOn mark).length = text.count mark + 1 := by
  induction text with
  | nil => rw [List.splitOn_nil, List.length_singleton, List.count_nil]
  | cons letter text inductionHypothesis =>
      rw [List.splitOn_cons_eq_if_modifyHead, List.count_cons]
      split_ifs
      · rw [List.length_cons, inductionHypothesis]
      · rw [List.length_modifyHead, inductionHypothesis, Nat.add_zero]

theorem pieces_nil : pieces marked mark ([] : List α) = [] := by
  rw [pieces, List.splitOn_nil, leftOf_singleton_nil]

theorem pieces_append_cons (front back : List α) :
    pieces marked mark (front ++ mark :: back) =
      pieces marked mark front ++ pieces marked mark back := by
  rw [pieces, List.splitOn_append_cons_self, leftOf_append]
  rfl

theorem pieces_mark_cons (text : List α) :
    pieces marked mark (mark :: text) = pieces marked mark text := by
  have cut : pieces marked mark ([] ++ mark :: text) = _ := pieces_append_cons [] text
  rwa [pieces_nil, List.nil_append, List.nil_append] at cut

/-- The marked letters around a text do not count. -/
theorem pieces_cons {letter : α} (blank : marked letter) (text : List α) :
    pieces marked mark (letter :: text) = pieces marked mark text := by
  by_cases here : letter = mark
  · rw [here, pieces_mark_cons]
  · rw [pieces, pieces, List.splitOn_cons_eq_if_modifyHead, if_neg (by simpa using here)]
    obtain ⟨head, tail, shape⟩ := List.exists_cons_of_ne_nil (List.splitOn_ne_nil mark text)
    rw [shape, List.modifyHead_cons]
    refine leftOf_congr ?_
    rw [List.map_cons, List.map_cons, strip_cons_of_marked blank]

theorem pieces_concat {letter : α} (blank : marked letter) (text : List α) :
    pieces marked mark (text ++ [letter]) = pieces marked mark text := by
  by_cases here : letter = mark
  · rw [here, pieces_append_cons, pieces_nil, List.append_nil]
  · have alone (last : List α) (missing : mark ∉ last) :
        pieces marked mark (last ++ [letter]) = pieces marked mark last := by
      have apart : mark ∉ last ++ [letter] := by
        rw [List.mem_append, List.mem_singleton, not_or]
        exact ⟨missing, fun same => here same.symm⟩
      rw [pieces, pieces, List.splitOn_eq_singleton apart, List.splitOn_eq_singleton missing]
      refine leftOf_congr ?_
      rw [List.map_singleton, List.map_singleton, strip_concat_of_marked blank]
    obtain ⟨front, shape, ends⟩ := exists_append_afterLast mark text
    generalize last : afterLast mark text = behind at shape
    have missing : mark ∉ behind := last ▸ notMem_afterLast mark text
    rw [shape]
    rcases ends with rfl | ends
    · exact alone behind missing
    · obtain ⟨inner, rfl⟩ := List.getLast?_eq_some_iff.mp ends
      rw [List.append_assoc, List.append_assoc, List.singleton_append, List.append_assoc,
        List.singleton_append, pieces_append_cons, pieces_append_cons, alone behind missing]

theorem pieces_dropWhile (only : ∀ letter, drops letter → marked letter) (text : List α) :
    pieces marked mark (text.dropWhile drops) = pieces marked mark text := by
  induction text with
  | nil => rfl
  | cons letter text inductionHypothesis =>
      rw [List.dropWhile_cons]
      split_ifs with dropped
      · rw [inductionHypothesis, pieces_cons (only letter dropped)]
      · rfl

theorem pieces_rdropWhile (only : ∀ letter, drops letter → marked letter) (text : List α) :
    pieces marked mark (text.rdropWhile drops) = pieces marked mark text := by
  induction text using List.reverseRecOn with
  | nil => rfl
  | append_singleton text letter inductionHypothesis =>
      rw [List.rdropWhile_concat]
      split_ifs with dropped
      · rw [inductionHypothesis, pieces_concat (only letter dropped)]
      · rfl

theorem pieces_strip (only : ∀ letter, drops letter → marked letter) (text : List α) :
    pieces marked mark (strip drops text) = pieces marked mark text := by
  rw [strip, pieces_rdropWhile only, pieces_dropWhile only]

end Pieces

end Text
end Mailcore

/-!
## Cutting an image

A map of letters to texts that makes no separator but from the separator maps
the pieces of a text.
-/

namespace Mailcore
namespace Text

section Image

variable {α : Type} {mark : α} {image : α → List α}

theorem length_le_flatMap (nonempty : ∀ letter, image letter ≠ []) (text : List α) :
    text.length ≤ (text.flatMap image).length := by
  induction text with
  | nil => exact Nat.zero_le _
  | cons letter text inductionHypothesis =>
      have some_ := List.length_pos_iff.mpr (nonempty letter)
      rw [List.flatMap_cons, List.length_append, List.length_cons]
      omega

/-- A map that keeps the separator and makes no other. -/
structure Separates (mark : α) (image : α → List α) : Prop where
  same : image mark = [mark]
  apart : ∀ letter, letter ≠ mark → mark ∉ image letter

variable [DecidableEq α]

/-- The front of a text without the first letter of the pattern stays whole. -/
theorem splitOnceAt_append_of_notMem {pattern front : List α} (missing : mark ∉ front)
    (rest : List α) :
    splitOnceAt (mark :: pattern) (front ++ rest) =
      (splitOnceAt (mark :: pattern) rest).map fun cut => (front ++ cut.1, cut.2) := by
  induction front with
  | nil =>
      rw [List.nil_append]
      exact Option.map_id'.symm
  | cons letter front inductionHypothesis =>
      rw [List.mem_cons, not_or] at missing
      have differs : (mark :: pattern).head? ≠ some letter := by
        simpa using missing.1
      rw [List.cons_append, splitOnceAt_cons differs (List.cons_ne_nil _ _),
        inductionHypothesis missing.2, Option.map_map]
      rfl

theorem splitOn_append_of_notMem {front rest : List α} (missing : mark ∉ front) :
    (front ++ rest).splitOn mark = (rest.splitOn mark).modifyHead (front ++ ·) := by
  obtain ⟨head, tail, shape⟩ := List.exists_cons_of_ne_nil (List.splitOn_ne_nil mark rest)
  induction front with
  | nil =>
      rw [List.nil_append, shape]
      rfl
  | cons letter front inductionHypothesis =>
      rw [List.mem_cons, not_or] at missing
      rw [List.cons_append, List.splitOn_cons_eq_if_modifyHead,
        if_neg (by simpa using fun same => missing.1 same.symm), inductionHypothesis missing.2,
        shape]
      rfl

theorem splitOn_flatMap (separates : Separates mark image) (text : List α) :
    (text.flatMap image).splitOn mark = (text.splitOn mark).map (List.flatMap image) := by
  induction text with
  | nil => rw [List.flatMap_nil, List.splitOn_nil, List.map_singleton, List.flatMap_nil]
  | cons letter text inductionHypothesis =>
      rw [List.flatMap_cons, List.splitOn_cons_eq_if_modifyHead]
      obtain ⟨head, tail, shape⟩ := List.exists_cons_of_ne_nil (List.splitOn_ne_nil mark text)
      by_cases here : letter = mark
      · subst here
        rw [separates.same, List.singleton_append, List.splitOn_cons_eq_if_modifyHead,
          inductionHypothesis, if_pos (by simp), if_pos (by simp)]
        rfl
      · rw [splitOn_append_of_notMem (separates.apart letter here), inductionHypothesis,
          if_neg (by simpa using here), shape]
        rfl

theorem splitOnceAt_pair_cons {text : List α} (alone : text.head? ≠ some mark) :
    splitOnceAt [mark, mark] (mark :: text) =
      (splitOnceAt [mark, mark] text).map fun cut => (mark :: cut.1, cut.2) := by
  have apart : [mark, mark].isPrefixOf (mark :: text) = false := by
    cases text with
    | nil => simp
    | cons letter text =>
        have differs : mark ≠ letter := fun same => alone (congrArg some same.symm)
        simp [List.isPrefixOf, differs]
  rw [splitOnceAt, apart, if_neg Bool.false_ne_true]

theorem head?_flatMap (separates : Separates mark image) (nonempty : ∀ letter, image letter ≠ [])
    (text : List α) : (text.flatMap image).head? = some mark ↔ text.head? = some mark := by
  cases text with
  | nil => rfl
  | cons letter text =>
      obtain ⟨first, rest, shape⟩ := List.exists_cons_of_ne_nil (nonempty letter)
      rw [List.flatMap_cons, shape, List.cons_append, List.head?_cons, List.head?_cons,
        Option.some_inj, Option.some_inj]
      constructor
      · rintro rfl
        by_contra other
        exact separates.apart letter other (shape ▸ List.mem_cons_self)
      · rintro rfl
        exact (List.cons.inj (shape.symm.trans separates.same)).1

/-- The pair of separators in an image comes from a pair. -/
theorem splitOnceAt_flatMap (separates : Separates mark image)
    (nonempty : ∀ letter, image letter ≠ []) (text : List α) :
    splitOnceAt [mark, mark] (text.flatMap image) =
      (splitOnceAt [mark, mark] text).map fun cut =>
        (cut.1.flatMap image, cut.2.flatMap image) := by
  induction text with
  | nil => rfl
  | cons letter text inductionHypothesis =>
      by_cases here : letter = mark
      · rw [here, List.flatMap_cons, separates.same, List.singleton_append]
        by_cases pair : text.head? = some mark
        · obtain ⟨rest, rfl⟩ := List.head?_eq_some_iff.mp pair
          have cut (rest : List α) : splitOnceAt [mark, mark] (mark :: mark :: rest) =
              some ([], rest) := splitOnceAt_prefix (List.cons_ne_nil _ _) rest
          rw [List.flatMap_cons, separates.same, List.singleton_append, cut, cut]
          rfl
        · have kept : (text.flatMap image).head? ≠ some mark :=
            fun first => pair ((head?_flatMap separates nonempty text).mp first)
          rw [splitOnceAt_pair_cons kept, inductionHypothesis, splitOnceAt_pair_cons pair,
            Option.map_map, Option.map_map]
          refine congrArg (fun change => Option.map change _) (funext fun cut => ?_)
          rw [Function.comp, Function.comp, List.flatMap_cons, separates.same]
          rfl
      · have differs : [mark, mark].head? ≠ some letter := by
          simpa using fun same => here same.symm
        rw [List.flatMap_cons, splitOnceAt_append_of_notMem (separates.apart letter here),
          inductionHypothesis, splitOnceAt_cons differs (List.cons_ne_nil _ _), Option.map_map,
          Option.map_map]
        rfl

/-- So an image is cut where the text is, with cuts to spare on both sides. -/
theorem segmentsIn_flatMap (separates : Separates mark image)
    (nonempty : ∀ letter, image letter ≠ []) {fuel more : Nat} {text : List α}
    (enough : text.length ≤ fuel) (spare : (text.flatMap image).length ≤ more) :
    segmentsIn [mark, mark] more (text.flatMap image) =
      (segmentsIn [mark, mark] fuel text).map (List.flatMap image) := by
  induction fuel generalizing more text with
  | zero =>
      obtain rfl := List.length_eq_zero_iff.mp (Nat.le_zero.mp enough)
      cases more <;> rfl
  | succ fuel inductionHypothesis =>
      cases more with
      | zero =>
          have short := length_le_flatMap nonempty text
          obtain rfl := List.length_eq_zero_iff.mp (by omega : text.length = 0)
          rfl
      | succ more =>
          rw [segmentsIn, segmentsIn, splitOnceAt_flatMap separates nonempty]
          cases cut : splitOnceAt [mark, mark] text with
          | none => rfl
          | some both =>
              obtain ⟨front, back⟩ := both
              have shape := eq_append_of_splitOnceAt cut
              have shorter := length_lt_of_splitOnceAt (List.cons_ne_nil _ _) cut
              have less : (back.flatMap image).length < (text.flatMap image).length := by
                rw [shape, List.flatMap_append, List.flatMap_append, List.length_append,
                  List.length_append, List.flatMap_cons, separates.same]
                simp only [List.singleton_append, List.length_cons]
                omega
              rw [Option.map_some]
              dsimp only
              rw [inductionHypothesis (by omega) (by omega), List.map_cons]

theorem segments_flatMap (separates : Separates mark image)
    (nonempty : ∀ letter, image letter ≠ []) (text : List α) :
    segments [mark, mark] (text.flatMap image) =
      (segments [mark, mark] text).map (List.flatMap image) :=
  segmentsIn_flatMap separates nonempty le_rfl le_rfl

/-- Every separator becomes a text. -/
theorem flatMap_eq_intercalate (separator : List α) (text : List α) :
    (text.flatMap fun letter => if letter = mark then separator else [letter]) =
      separator.intercalate (text.splitOn mark) := by
  induction text with
  | nil => rw [List.flatMap_nil, List.splitOn_nil, List.intercalate_singleton]
  | cons letter text inductionHypothesis =>
      obtain ⟨head, tail, shape⟩ := List.exists_cons_of_ne_nil (List.splitOn_ne_nil mark text)
      rw [List.flatMap_cons, inductionHypothesis, List.splitOn_cons_eq_if_modifyHead]
      by_cases here : letter = mark
      · rw [if_pos here, if_pos (by simpa using here),
          List.intercalate_cons_of_ne_nil (List.splitOn_ne_nil mark text)]
        rfl
      · rw [if_neg here, if_neg (by simpa using here), shape, List.modifyHead_cons]
        cases tail with
        | nil =>
            rw [List.intercalate_singleton, List.intercalate_singleton]
            rfl
        | cons next tail =>
            rw [List.intercalate_cons_cons, List.intercalate_cons_cons]
            rfl

end Image

section Halves

variable {α : Type} [DecidableEq α] {marked : α → Bool} {mark : α}

/-- Cut at pairs of separators first, a text leaves the same pieces. -/
theorem pieces_intercalate_pair (parts : List (List α)) :
    pieces marked mark ([mark, mark].intercalate parts) =
      (parts.map (pieces marked mark)).flatten := by
  induction parts with
  | nil => exact pieces_nil
  | cons part parts inductionHypothesis =>
      cases parts with
      | nil =>
          rw [List.intercalate_singleton, List.map_singleton, List.flatten_singleton]
      | cons next parts =>
          rw [List.intercalate_cons_cons, List.append_assoc, List.cons_append,
            pieces_append_cons, List.singleton_append, pieces_mark_cons, inductionHypothesis,
            List.map_cons, List.map_cons, List.flatten_cons]
          rfl

theorem pieces_segments (text : List α) :
    ((segments [mark, mark] text).map (pieces marked mark)).flatten = pieces marked mark text := by
  rw [← pieces_intercalate_pair, segments, intercalate_segmentsIn]

end Halves
end Text
end Mailcore

import Mailcore.Html.Parts

/-!
# Finding an attribute

The reader looks for ` name="` in the attribute text.  It finds the first
attribute of that name, unless the value of an earlier one ends in ` name=`.
-/

namespace Mailcore
namespace Html

open Markup
open Text (splitOnceAt asciiLower)

/-! ## Texts -/

/-- What precedes the quote of a value. -/
def opener (key : List Char) : List Char :=
  ' ' :: (key ++ ['='])

theorem needle_eq (key : List Char) : needle key = opener key ++ ['"'] := by
  simp [needle, opener]

/-- Quotes cut a text in one way. -/
theorem quote_prefix_iff
    {first second rest : List Char} (left : '"' ∉ first) (right : '"' ∉ second) :
    first ++ ['"'] <+: second ++ '"' :: rest ↔ first = second := by
  constructor
  · intro begins
    induction first generalizing second with
    | nil =>
        cases second with
        | nil => rfl
        | cons char second =>
            rw [List.cons_append, List.nil_append, List.cons_prefix_cons] at begins
            exact absurd (begins.1 ▸ List.mem_cons_self) right
    | cons char first inductionHypothesis =>
        cases second with
        | nil =>
            rw [List.cons_append, List.nil_append, List.cons_prefix_cons] at begins
            exact absurd (begins.1 ▸ List.mem_cons_self) left
        | cons other second =>
            rw [List.cons_append, List.cons_append, List.cons_prefix_cons] at begins
            rw [begins.1, inductionHypothesis
              (fun member => left (List.mem_cons_of_mem _ member))
              (fun member => right (List.mem_cons_of_mem _ member)) begins.2]
  · rintro rfl
    exact ⟨rest, by simp⟩

theorem isPrefixOf_quote
    {first second rest : List Char} (left : '"' ∉ first) (right : '"' ∉ second) :
    (first ++ ['"']).isPrefixOf (second ++ '"' :: rest) = decide (first = second) := by
  rw [Bool.eq_iff_iff, List.isPrefixOf_iff_prefix, decide_eq_true_eq,
    quote_prefix_iff left right]

/-- A pattern that ends in a quote is found at the end of a run without quotes, or
behind it. -/
theorem splitOnceAt_quote
    {pattern run : List Char} (whole : '"' ∉ pattern) (plain : '"' ∉ run)
    (rest : List Char) :
    splitOnceAt (pattern ++ ['"']) (run ++ '"' :: rest) =
      if pattern <:+ run then some (run.take (run.length - pattern.length), rest)
      else (splitOnceAt (pattern ++ ['"']) rest).map fun cut =>
        (run ++ '"' :: cut.1, cut.2) := by
  induction run with
  | nil =>
      have begins := @isPrefixOf_quote pattern [] rest whole plain
      rw [List.nil_append] at begins
      rw [List.nil_append, splitOnceAt, begins]
      by_cases empty : pattern = []
      · simp [empty]
      · simp [empty]
  | cons char run inductionHypothesis =>
      have begins := @isPrefixOf_quote pattern (char :: run) rest whole plain
      rw [List.cons_append] at begins
      rw [List.cons_append, splitOnceAt, begins,
        inductionHypothesis fun member => plain (List.mem_cons_of_mem _ member)]
      by_cases same : pattern = char :: run
      · simp [same]
      · rw [if_neg (by simpa using same)]
        by_cases inside : pattern <:+ run
        · have longer : pattern <:+ char :: run :=
            inside.trans (List.suffix_cons _ _)
          have length := inside.length_le
          rw [if_pos inside, if_pos longer, List.length_cons,
            Nat.sub_add_comm length]
          rfl
        · have missing : ¬pattern <:+ char :: run := by
            rw [List.suffix_cons_iff]
            exact fun either => either.elim same inside
          rw [if_neg inside, if_neg missing, Option.map_map]
          rfl

/-- The first match stays the first whatever follows. -/
theorem splitOnceAt_replace
    {pattern text front back : List Char} (nonempty : pattern ≠ [])
    (cut : splitOnceAt pattern text = some (front, back)) (other : List Char) :
    splitOnceAt pattern (front ++ (pattern ++ other)) = some (front, other) := by
  induction text generalizing front with
  | nil =>
      rw [splitOnceAt, if_neg nonempty] at cut
      cases cut
  | cons char text inductionHypothesis =>
      rw [splitOnceAt] at cut
      split_ifs at cut with begins
      · obtain ⟨rfl, -⟩ : [] = front ∧ (char :: text).drop pattern.length = back := by
          simpa using cut
        exact Text.splitOnceAt_prefix nonempty other
      · obtain ⟨⟨inner, rest⟩, within, same⟩ := Option.map_eq_some_iff.mp cut
        obtain ⟨rfl, rfl⟩ := Prod.mk.inj same
        have missing : ¬pattern.isPrefixOf (char :: (inner ++ (pattern ++ other))) := by
          rw [List.isPrefixOf_iff_prefix]
          intro early
          refine begins (List.isPrefixOf_iff_prefix.mpr ?_)
          have text_ := Text.eq_append_of_splitOnceAt within
          have within_ : pattern <+: char :: (inner ++ pattern) := by
            refine List.prefix_of_prefix_length_le early ⟨other, by simp⟩ ?_
            simp only [List.length_cons, List.length_append]
            omega
          rw [text_]
          exact within_.trans ⟨rest, by simp⟩
        rw [List.cons_append, splitOnceAt, if_neg missing, inductionHypothesis within]
        rfl

/-! ## Attributes -/

section Find

variable {attrs : List Char} {name : List Char}

/-- What is found stands in the text. -/
theorem eq_of_findAttr {front value back : List Char}
    (found : findAttr attrs name = some (front, value, back)) :
    attrs = front ++ (spelled name value ++ back) := by
  unfold findAttr at found
  simp only [Option.bind_eq_bind, Option.bind_eq_some_iff, Option.some.injEq] at found
  obtain ⟨⟨front_, rest⟩, first, ⟨value_, back_⟩, second, same⟩ := found
  obtain ⟨rfl, rfl, rfl⟩ : front_ = front ∧ value_ = value ∧ back_ = back := by
    simpa using same
  dsimp only at second
  rw [Text.eq_append_of_splitOnceAt first, Text.eq_append_of_splitOnceAt second]
  simp [spelled]

/-- The value of what is found can be replaced. -/
theorem findAttr_replace {front value back : List Char}
    (found : findAttr attrs name = some (front, value, back))
    {other : List Char} (plain : '"' ∉ other) :
    findAttr (front ++ (spelled name other ++ back)) name =
      some (front, other, back) := by
  unfold findAttr at found
  simp only [Option.bind_eq_bind, Option.bind_eq_some_iff, Option.some.injEq] at found
  obtain ⟨⟨front_, rest⟩, first, ⟨value_, back_⟩, -, same⟩ := found
  obtain ⟨rfl, rfl, rfl⟩ : front_ = front ∧ value_ = value ∧ back_ = back := by
    simpa using same
  have nonempty : needle name ≠ [] := by simp [needle]
  have again := splitOnceAt_replace nonempty first (other ++ '"' :: back_)
  have shape : front_ ++ (spelled name other ++ back_) =
      front_ ++ (needle name ++ (other ++ '"' :: back_)) := by
    simp [spelled]
  unfold findAttr
  rw [shape, again]
  simp [Text.splitOnceAt_separator plain]

end Find

/-! ## Lists of attributes -/

/-- The attribute that is found: those in front, its value, and those behind. -/
def seen (key : List Char) : List Attribute →
    Option (List Attribute × List Char × List Attribute)
  | [] => none
  | (name, value) :: attrs =>
      if name = key then some ([], value, attrs)
      else if opener key <:+ value then none
      else (seen key attrs).map fun cut => ((name, value) :: cut.1, cut.2)

theorem eq_of_seen {key value : List Char} {attrs front back : List Attribute}
    (found : seen key attrs = some (front, value, back)) :
    attrs = front ++ (key, value) :: back := by
  induction attrs generalizing front with
  | nil => cases found
  | cons given attrs inductionHypothesis =>
      obtain ⟨name, other⟩ := given
      rw [seen] at found
      split_ifs at found with same
      · obtain ⟨rfl, rfl, rfl⟩ : [] = front ∧ other = value ∧ attrs = back := by
          simpa using found
        rw [same]
        rfl
      · obtain ⟨⟨inner, rest⟩, within, equal⟩ := Option.map_eq_some_iff.mp found
        obtain ⟨rfl, rfl⟩ := Prod.mk.inj equal
        rw [inductionHypothesis within]
        rfl

theorem attrsText_cons (given : Attribute) (attrs : List Attribute) :
    attrsText (given :: attrs) = spelled given.1 given.2 ++ attrsText attrs :=
  List.flatMap_cons

theorem attrsText_append (first second : List Attribute) :
    attrsText (first ++ second) = attrsText first ++ attrsText second :=
  List.flatMap_append

/-- The name of an attribute is the one looked for, or none is found in it. -/
theorem opener_suffix_iff {key name : List Char} (safe : safeKey name) :
    opener key <:+ opener name ↔ name = key := by
  constructor
  · rintro ⟨front, same⟩
    cases front with
    | nil =>
        have inner : key ++ ['='] = name ++ ['='] := (List.cons.inj same).2
        exact (List.append_cancel_right inner).symm
    | cons char front =>
        have inner : front ++ ' ' :: (key ++ ['=']) = name ++ ['='] :=
          (List.cons.inj same).2
        have member : ' ' ∈ name ++ ['='] := by
          rw [← inner]
          simp
        rcases List.mem_append.mp member with inName | literal
        · unfold safeKey at safe
          rw [Bool.and_eq_true, List.all_eq_true] at safe
          exact absurd (safe.2 _ inName) (by decide)
        · exact absurd literal (by decide)
  · rintro rfl
    exact List.suffix_refl _

theorem quote_notMem_opener {key : List Char} (safe : safeKey key) : '"' ∉ opener key := by
  unfold safeKey at safe
  rw [Bool.and_eq_true, List.all_eq_true] at safe
  unfold opener
  simp only [List.mem_cons, List.mem_append, List.not_mem_nil, or_false]
  rintro (space | inKey | equals)
  · exact absurd space (by decide)
  · exact absurd (safe.2 _ inKey) (by decide)
  · exact absurd equals (by decide)

theorem splitOnceAt_needle_attr
    {key : List Char} (safe : safeKey key) {given : Attribute}
    (safeGiven : safeKey given.1) (plain : '"' ∉ given.2) (rest : List Char) :
    splitOnceAt (needle key) (spelled given.1 given.2 ++ rest) =
      if given.1 = key then some ([], given.2 ++ '"' :: rest)
      else if opener key <:+ given.2 then
        some (needle given.1 ++
          given.2.take (given.2.length - (opener key).length), rest)
      else (splitOnceAt (needle key) rest).map fun cut =>
        (spelled given.1 given.2 ++ cut.1, cut.2) := by
  have shape : spelled given.1 given.2 ++ rest =
      opener given.1 ++ '"' :: (given.2 ++ '"' :: rest) := by
    simp [spelled, needle, opener]
  have whole := quote_notMem_opener safe
  rw [shape, needle_eq, splitOnceAt_quote whole (quote_notMem_opener safeGiven)]
  by_cases same : given.1 = key
  · rw [if_pos ((opener_suffix_iff safeGiven).mpr same), if_pos same, same]
    simp
  · rw [if_neg (fun inside => same ((opener_suffix_iff safeGiven).mp inside)),
      if_neg same, splitOnceAt_quote whole plain]
    by_cases inside : opener key <:+ given.2
    · rw [if_pos inside, if_pos inside]
      simp [needle, opener]
    · rw [if_neg inside, if_neg inside, Option.map_map]
      congr 1
      funext cut
      simp [spelled, needle, opener]

/-- The value behind an attribute whose value ends like the opener of another. -/
theorem splitOnceAt_behind
    {attrs : List Attribute} (clean : CleanAttrs attrs) {tail : List Char}
    (plain : '"' ∉ tail) {value back : List Char}
    (cut : splitOnceAt ['"'] (attrsText attrs ++ tail) = some (value, back)) :
    ∃ name, safeKey name ∧ value = opener name := by
  cases attrs with
  | nil =>
      have none_ := Text.splitOnceAt_none (List.mem_singleton_self '"') plain
      rw [show attrsText [] ++ tail = tail from rfl, none_] at cut
      cases cut
  | cons given attrs =>
      have first := clean given List.mem_cons_self
      have shape : attrsText (given :: attrs) ++ tail =
          opener given.1 ++ '"' :: (given.2 ++ '"' :: (attrsText attrs ++ tail)) := by
        simp [attrsText_cons, spelled, needle, opener]
      rw [shape, Text.splitOnceAt_separator (quote_notMem_opener first.1)] at cut
      exact ⟨given.1, first.1, (Prod.mk.inj (Option.some.inj cut)).1.symm⟩

/-- What is found in the text of a list of attributes. -/
theorem findAttr_attrsText
    {key : List Char} (safe : safeKey key) {attrs : List Attribute}
    (clean : CleanAttrs attrs) {tail : List Char} (plain : '"' ∉ tail) :
    match seen key attrs with
    | some (front, value, back) =>
        findAttr (attrsText attrs ++ tail) key =
          some (attrsText front, value, attrsText back ++ tail)
    | none => ∀ front value back,
        findAttr (attrsText attrs ++ tail) key = some (front, value, back) →
          (∃ given ∈ attrs, opener key <:+ given.2) ∧
            ∃ name, safeKey name ∧ value = opener name := by
  induction attrs with
  | nil =>
      intro front value back found
      have none_ : splitOnceAt (needle key) (attrsText [] ++ tail) = none :=
        @Text.splitOnceAt_none _ _ _ _ '"' (by simp [needle]) plain
      rw [findAttr, none_] at found
      cases found
  | cons given attrs inductionHypothesis =>
      have first := clean given List.mem_cons_self
      have cleanRest : CleanAttrs attrs := fun other member =>
        clean other (List.mem_cons_of_mem _ member)
      have cut := splitOnceAt_needle_attr safe first.1 first.2.1 (attrsText attrs ++ tail)
      rw [attrsText_cons, List.append_assoc, seen]
      by_cases same : given.1 = key
      · rw [if_pos same]
        rw [if_pos same] at cut
        unfold findAttr
        rw [cut]
        simp [Text.splitOnceAt_separator first.2.1, attrsText]
      · rw [if_neg same]
        rw [if_neg same] at cut
        by_cases inside : opener key <:+ given.2
        · rw [if_pos inside]
          rw [if_pos inside] at cut
          intro front value back found
          refine ⟨⟨given, List.mem_cons_self, inside⟩, ?_⟩
          unfold findAttr at found
          rw [cut] at found
          simp only [Option.bind_eq_bind, Option.bind_some, Option.bind_eq_some_iff,
            Option.some.injEq] at found
          obtain ⟨⟨value_, back_⟩, second, equal⟩ := found
          obtain ⟨-, rfl, -⟩ := Prod.mk.injEq .. ▸ equal
          exact splitOnceAt_behind cleanRest plain second
        · rw [if_neg inside]
          rw [if_neg inside] at cut
          have step : findAttr (spelled given.1 given.2 ++ (attrsText attrs ++ tail)) key =
              (findAttr (attrsText attrs ++ tail) key).map fun found =>
                (spelled given.1 given.2 ++ found.1, found.2) := by
            unfold findAttr
            rw [cut]
            cases splitOnceAt (needle key) (attrsText attrs ++ tail) with
            | none => rfl
            | some pair =>
                obtain ⟨front, rest⟩ := pair
                simp only [Option.map_some, Option.bind_eq_bind, Option.bind_some]
                cases splitOnceAt ['"'] rest <;> rfl
          have others := inductionHypothesis cleanRest
          rw [step]
          cases found : seen key attrs with
          | none =>
              rw [found] at others
              intro front value back mapped
              obtain ⟨⟨front_, value_, back_⟩, behind, equal⟩ :=
                Option.map_eq_some_iff.mp mapped
              obtain ⟨⟨which, member, ends⟩, shape⟩ := others _ _ _ behind
              refine ⟨⟨which, List.mem_cons_of_mem _ member, ends⟩, ?_⟩
              simp only [Prod.mk.injEq] at equal
              rwa [← equal.2.1]
          | some pair =>
              obtain ⟨front, value, back⟩ := pair
              rw [found] at others
              change findAttr _ _ = _ at others
              rw [others]
              simp [attrsText_cons]

/-! ## Rewriting what is found -/

/-- The attribute text with the value that is found rewritten. -/
def rewriteAttr (f : List Char → List Char) (key attrs : List Char) : List Char :=
  match findAttr attrs key with
  | some (front, value, back) => front ++ (spelled key (f value) ++ back)
  | none => attrs

/-- The attributes with the value that is found rewritten. -/
def modifySeen (key : List Char) (f : List Char → List Char) (attrs : List Attribute) :
    List Attribute :=
  match seen key attrs with
  | some (front, value, back) => front ++ (key, f value) :: back
  | none => attrs

section Rewriting

variable {key : List Char} {f : List Char → List Char} {attrs : List Attribute}

theorem rewriteAttr_attrsText
    (safe : safeKey key) (clean : CleanAttrs attrs)
    (fixed : (∀ name, safeKey name → f (opener name) = opener name) ∨
      ∀ given ∈ attrs, ¬opener key <:+ given.2)
    {tail : List Char} (plain : '"' ∉ tail) :
    rewriteAttr f key (attrsText attrs ++ tail) =
      attrsText (modifySeen key f attrs) ++ tail := by
  have found := findAttr_attrsText safe clean plain
  unfold modifySeen rewriteAttr
  cases which : seen key attrs with
  | some pair =>
      obtain ⟨front, value, back⟩ := pair
      rw [which] at found
      change findAttr _ _ = _ at found
      rw [found]
      simp [attrsText_append, attrsText_cons]
  | none =>
      rw [which] at found
      cases inText : findAttr (attrsText attrs ++ tail) key with
      | none => rfl
      | some triple =>
          obtain ⟨front, value, back⟩ := triple
          obtain ⟨⟨given, member, ends⟩, name, safeName_, rfl⟩ := found _ _ _ inText
          rcases fixed with fixed | never
          · dsimp only
            rw [fixed name safeName_]
            exact (eq_of_findAttr inText).symm
          · exact absurd ends (never given member)

theorem clean_modifySeen
    (clean : CleanAttrs attrs) (keeps : ∀ value, CleanValue value → CleanValue (f value)) :
    CleanAttrs (modifySeen key f attrs) := by
  unfold modifySeen
  split
  · next front value back found =>
    rw [eq_of_seen found] at clean
    intro given member
    rcases List.mem_append.mp member with before | this
    · exact clean given (List.mem_append_left _ before)
    · rcases List.mem_cons.mp this with rfl | behind
      · have old := clean (key, value) (by simp)
        exact ⟨old.1, keeps value old.2⟩
      · exact clean given (List.mem_append_right _ (List.mem_cons_of_mem _ behind))
  · exact clean

/-- The other attributes stay as they are. -/
theorem others_modifySeen
    {keys : List (List Char)} (inside : asciiLower key ∈ keys) :
    others keys (modifySeen key f attrs) = others keys attrs := by
  unfold modifySeen
  split
  · next front value back found =>
    rw [eq_of_seen found, others_append, others_append, others_cons inside,
      others_cons inside]
  · rfl

end Rewriting

end Html
end Mailcore

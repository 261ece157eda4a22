import Mailcore.Compose.Recipients

/-!
# One reading of the recipient field

Where the form and the completer read a field the same way, and the entry of a
contact becomes one recipient.
-/

namespace Mailcore
namespace Compose

open Contacts (Contact)
open Html (trim)
open Outbox (isWhitespace)
open Text (splitOutside lastOutside hidesSeparator)

/-- The recipients in front of the one being typed. -/
def earlier (field : List Char) : List (List Char) :=
  if recipientSegment field = [] then addresses field else (addresses field).dropLast

/-- The form reads the segments of the completer, the last of them is the one
being typed, and completing it with a contact changes only that one. -/
structure ReadOneWay (field : List Char) (contact : Contact) : Prop where
  same : addresses field = segments field
  last : recipientSegment field ≠ [] →
    (addresses field).getLast? = some (recipientSegment field)
  replaced : addresses (replaceRecipientSegment field (recipientEntry contact)) =
    earlier field ++ [recipientEntry contact]

/-- The address of a contact holds no separator and, where it stands alone, is
trimmed and not empty. -/
def Insertable (contact : Contact) : Prop :=
  (∀ c ∈ contact.address, isSeparator c = false) ∧
    (((usable contact.alias_).or (usable contact.name)).isSome ∨
      trim contact.address = contact.address ∧ contact.address ≠ [])

/-! ## What an entry is -/

theorem not_isSeparator_of_mem_splitOnP {text piece : List Char}
    (member : piece ∈ text.splitOnP isSeparator) : ∀ c ∈ piece, isSeparator c = false := by
  induction text generalizing piece with
  | nil =>
      rw [List.splitOnP_nil] at member
      rw [List.mem_singleton.mp member]
      exact fun _ inside => absurd inside List.not_mem_nil
  | cons first text inductionHypothesis =>
      rw [List.splitOnP_cons_eq_if_modifyHead] at member
      split_ifs at member with cuts
      · rcases List.mem_cons.mp member with rfl | later
        · exact fun _ inside => absurd inside List.not_mem_nil
        · exact inductionHypothesis later
      · generalize text.splitOnP isSeparator = pieces at member inductionHypothesis
        cases pieces with
        | nil => cases member
        | cons head later =>
            rw [List.modifyHead_cons] at member
            rcases List.mem_cons.mp member with rfl | behind
            · refine List.forall_mem_cons.mpr ⟨by simpa using cuts, ?_⟩
              exact inductionHypothesis List.mem_cons_self
            · exact inductionHypothesis (List.mem_cons_of_mem _ behind)

/-- A text that can stand in a field as one recipient. -/
def IsEntry (text : List Char) : Prop :=
  (∀ c ∈ text, isSeparator c = false) ∧ trim text = text ∧ text ≠ []

theorem isEntry_of_mem_addresses {field entry : List Char} (member : entry ∈ addresses field) :
    IsEntry entry := by
  rw [addresses, entriesOf, List.mem_filter, decide_eq_true_eq] at member
  obtain ⟨piece, inside, rfl⟩ := List.mem_map.mp member.1
  refine ⟨fun c held => ?_, Text.strip_strip _ _, member.2⟩
  exact not_isSeparator_of_mem_splitOnP inside c (Html.trim_subset piece held)

theorem trim_nil : trim [] = [] :=
  rfl

theorem entriesOf_append (first second : List (List Char)) :
    entriesOf (first ++ second) = entriesOf first ++ entriesOf second := by
  rw [entriesOf, List.map_append, List.filter_append]
  rfl

theorem entriesOf_singleton (piece : List Char) :
    entriesOf [piece] = if trim piece = [] then [] else [trim piece] := by
  rw [entriesOf, List.map_singleton, List.filter_singleton]
  split_ifs <;> simp_all

theorem addresses_of_isEntry {entry : List Char} (isEntry : IsEntry entry) :
    addresses (' ' :: entry) = [entry] ∧ addresses entry = [entry] := by
  obtain ⟨plain, bare, nonempty⟩ := isEntry
  have alone : addresses entry = [entry] := by
    rw [addresses, bare, List.splitOnP_eq_singleton plain, entriesOf_singleton, bare,
      if_neg nonempty]
  refine ⟨?_, alone⟩
  rw [addresses, trim_cons (by decide), ← addresses]
  exact alone

/-- A separator cuts a field in two. -/
theorem addresses_append (front : List Char) {separator : Char} (cuts : isSeparator separator)
    (back : List Char) :
    addresses (front ++ separator :: back) = addresses front ++ addresses back := by
  rw [addresses_eq, addresses_eq, addresses_eq, List.splitOnP_append_cons _ _ cuts,
    entriesOf_append]

theorem isSeparator_quote : isSeparator '"' = false := by
  decide

theorem segments_eq {field : List Char} (shown : hidesSeparator isSeparator '"' false field = false) :
    segments field = addresses field := by
  rw [segments, addresses_eq, Text.splitOutside_eq_splitOnP isSeparator_quote shown]

/-- Space around a separator goes, the separator stays. -/
theorem mem_trim_of_isSeparator {text : List Char} {c : Char} (member : c ∈ text)
    (separator : isSeparator c) : c ∈ trim text := by
  refine Text.mem_strip member ?_
  by_contra blank
  rw [isSeparator_of_isWhitespace (by simpa using blank)] at separator
  cases separator

/-- A separator between quotes is kept in a segment. -/
theorem segments_ne_of_hidden {field : List Char}
    (hidden : hidesSeparator isSeparator '"' false field = true) :
    addresses field ≠ segments field := by
  obtain ⟨piece, member, c, inside, separator⟩ := Text.exists_hidden hidden
  intro same
  have kept := mem_trim_of_isSeparator inside separator
  have listed : trim piece ∈ segments field := by
    rw [segments, entriesOf, List.mem_filter, decide_eq_true_eq]
    refine ⟨List.mem_map_of_mem member, fun empty => ?_⟩
    rw [empty] at kept
    cases kept
  have plain := (isEntry_of_mem_addresses (same ▸ listed)).1 c kept
  rw [plain] at separator
  cases separator

/-! ## The entry of a contact -/

theorem isEntry_of_usable {s : Option (List Char)} {d : List Char} (found : usable s = some d) :
    IsEntry d := by
  rw [usable, Option.filter_eq_some_iff, decide_eq_true_eq] at found
  obtain ⟨name, -, rfl⟩ := Option.map_eq_some_iff.mp found.1
  refine ⟨fun c member => ?_, Text.strip_strip _ _, found.2⟩
  obtain ⟨letter, -, rfl⟩ := List.mem_map.mp (Html.trim_subset _ member)
  split_ifs with separator
  · decide
  · simpa using separator

theorem isEntry_named {d : List Char} (isEntry : IsEntry d) (address : List Char) :
    IsEntry (d ++ " <".toList ++ address ++ ['>']) ↔
      ∀ c ∈ address, isSeparator c = false := by
  obtain ⟨plain, bare, nonempty⟩ := isEntry
  obtain ⟨first, rest, rfl⟩ := List.exists_cons_of_ne_nil nonempty
  constructor
  · rintro ⟨all, -, -⟩ c member
    exact all c (by simp [member])
  · intro clear
    refine ⟨?_, ?_, by simp⟩
    · intro c member
      simp only [List.mem_append, List.mem_singleton] at member
      rcases member with ((named | mark) | inside) | rfl
      · exact plain c named
      · have known : c = ' ' ∨ c = '<' := by simpa using mark
        rcases known with rfl | rfl <;> decide
      · exact clear c inside
      · decide
    · refine Text.strip_of_bare (fun letter head => ?_) fun letter last => ?_
      · have opens : (trim (first :: rest)).head? = some letter := by
          rw [bare]
          simpa using head
        exact Text.head?_strip opens
      · rw [List.getLast?_concat] at last
        obtain rfl := Option.some.inj last
        decide

/-- The entry of a contact is one recipient exactly where the contact may be
inserted. -/
theorem isEntry_recipientEntry (contact : Contact) :
    IsEntry (recipientEntry contact) ↔ Insertable contact := by
  unfold recipientEntry Insertable
  cases found : (usable contact.alias_).or (usable contact.name) with
  | none =>
      simp only [Option.isSome_none, Bool.false_eq_true, false_or]
      rfl
  | some d =>
      have isEntry : IsEntry d := by
        rcases Option.or_eq_some_iff.mp found with nicknamed | ⟨-, named⟩
        · exact isEntry_of_usable nicknamed
        · exact isEntry_of_usable named
      simp only [Option.isSome_some, true_or, and_true]
      exact isEntry_named isEntry contact.address

/-! ## The two readings -/

theorem earlier_of_none {field : List Char}
    (nothing : lastOutside isSeparator '"' false field = none)
    (shown : hidesSeparator isSeparator '"' false field = false) : earlier field = [] := by
  have single : addresses field = entriesOf [field] := by
    rw [← segments_eq shown, segments, Text.splitOutside_of_lastOutside_none nothing]
  rw [earlier, single, entriesOf_singleton, (recipientSegment_of_none nothing []).1]
  split_ifs <;> rfl

/-- With nothing hidden, the field in front of its last separator holds the
earlier recipients, and what is behind it the last. -/
theorem addresses_of_some {field front back : List Char}
    (found : lastOutside isSeparator '"' false field = some (front, back))
    (shown : hidesSeparator isSeparator '"' false field = false) :
    ∃ inner separator, front = inner ++ [separator] ∧ isSeparator separator ∧
      addresses field = addresses inner ++ entriesOf [back] ∧ earlier field = addresses inner := by
  obtain ⟨inner, separator, rfl, rfl, cuts, pieces, clear⟩ :=
    Text.splitOutside_of_lastOutside found
  have all : addresses (inner ++ [separator] ++ back) = addresses inner ++ entriesOf [back] := by
    rw [← segments_eq shown, segments, pieces, entriesOf_append, ← segments, segments_eq
      (clear shown)]
  refine ⟨inner, separator, rfl, cuts, all, ?_⟩
  rw [earlier, all, (recipientSegment_of_some found []).1, entriesOf_singleton]
  split_ifs with blank
  · exact List.append_nil _
  · exact List.dropLast_concat

/-- The field is read one way exactly where no separator stands between quotes
and the contact may be inserted. -/
theorem readOneWay_iff (field : List Char) (contact : Contact) :
    ReadOneWay field contact ↔
      hidesSeparator isSeparator '"' false field = false ∧ Insertable contact := by
  rw [← isEntry_recipientEntry]
  constructor
  · rintro ⟨same, -, replaced⟩
    refine ⟨?_, ?_⟩
    · by_contra hidden
      exact segments_ne_of_hidden (by simpa using hidden) same
    · have listed : recipientEntry contact ∈
          addresses (replaceRecipientSegment field (recipientEntry contact)) := by
        rw [replaced]
        exact List.mem_append_right _ (List.mem_singleton_self _)
      exact isEntry_of_mem_addresses listed
  · rintro ⟨shown, isEntry⟩
    have whole := addresses_of_isEntry isEntry
    cases found : lastOutside isSeparator '"' false field with
    | none =>
        obtain ⟨typed, completed⟩ := recipientSegment_of_none found (recipientEntry contact)
        have single : addresses field = entriesOf [field] := by
          rw [← segments_eq shown, segments, Text.splitOutside_of_lastOutside_none found]
        refine ⟨(segments_eq shown).symm, fun nonempty => ?_, ?_⟩
        · rw [typed] at nonempty ⊢
          rw [single, entriesOf_singleton, if_neg nonempty]
          rfl
        · rw [completed, earlier_of_none found shown, List.nil_append]
          exact whole.2
    | some sides =>
        obtain ⟨front, back⟩ := sides
        obtain ⟨inner, separator, rfl, cuts, all, before⟩ := addresses_of_some found shown
        obtain ⟨typed, completed⟩ := recipientSegment_of_some found (recipientEntry contact)
        refine ⟨(segments_eq shown).symm, fun nonempty => ?_, ?_⟩
        · rw [typed] at nonempty ⊢
          rw [all, entriesOf_singleton, if_neg nonempty, List.getLast?_concat]
        · rw [completed, before, List.append_assoc, List.singleton_append,
            addresses_append _ cuts, whole.1]

namespace Sample

def ann : Contact :=
  ⟨"ann@example.com".toList, none, none, 1, 0, []⟩

/-- A name in quotes, with a comma, in front of what is being typed. -/
def quoted : List Char :=
  "\"Doe, John\" <john@example.com>, an".toList

/-- The form cuts the quoted name apart. -/
theorem quoted_name_is_cut :
    addresses quoted = ["\"Doe".toList, "John\" <john@example.com>".toList, "an".toList] ∧
      segments quoted = ["\"Doe, John\" <john@example.com>".toList, "an".toList] ∧
      ¬ReadOneWay quoted ann := by
  have form : addresses quoted =
      ["\"Doe".toList, "John\" <john@example.com>".toList, "an".toList] := by decide
  have completer : segments quoted =
      ["\"Doe, John\" <john@example.com>".toList, "an".toList] := by decide
  refine ⟨form, completer, fun reading => ?_⟩
  have same := reading.same
  rw [form, completer] at same
  exact absurd same (by decide)

end Sample

end Compose
end Mailcore

import Mailcore.Contacts.Phone
import Mailcore.Data.Leading

/-!
# Merged rows

Where no two mail rows share an address, merging lifts the rows that the phone
knows and appends the others of the phone.
-/

namespace Mailcore
namespace Contacts

/-- Addresses of scored rows. -/
def keys (rows : List (Int × Contact)) : List (List Char) :=
  rows.map fun row => key row.2

/-! ## The index -/

theorem indexOf_append (rows : List (Int × Contact)) (row : Int × Contact) :
    indexOf (rows ++ [row]) = (key row.2, rows.length) :: indexOf rows := by
  rw [indexOf, indexOf, List.zipIdx_append, List.map_append, List.reverse_append]
  simp

theorem lookup_indexOf_none {rows : List (Int × Contact)} {address : List Char} :
    (indexOf rows).lookup address = none ↔ address ∉ keys rows := by
  induction rows using List.reverseRecOn with
  | nil => simp [indexOf, keys]
  | append_singleton rows row inductionHypothesis =>
      rw [indexOf_append, List.lookup_cons]
      by_cases same : address = key row.2
      · simp [same, keys]
      · have differs : (address == key row.2) = false := by simpa using same
        rw [differs]
        simp only [keys, List.map_append, List.mem_append, List.map_singleton,
          List.mem_singleton, same, or_false] at inductionHypothesis ⊢
        exact inductionHypothesis

/-- An address is found where its last row stands. -/
theorem lookup_indexOf {front back : List (Int × Contact)} {row : Int × Contact}
    (last : key row.2 ∉ keys back) :
    (indexOf (front ++ row :: back)).lookup (key row.2) = some front.length := by
  induction back using List.reverseRecOn with
  | nil =>
      rw [indexOf_append, List.lookup_cons_self]
  | append_singleton back other inductionHypothesis =>
      rw [keys, List.map_append, List.mem_append, not_or] at last
      have differs : (key row.2 == key other.2) = false := by simpa using last.2
      have shape : front ++ row :: (back ++ [other]) = (front ++ row :: back) ++ [other] := by simp
      rw [shape, indexOf_append, List.lookup_cons, differs]
      exact inductionHypothesis last.1

theorem key_lift (row : Int × Contact) (phoneRow : Contact) :
    key (lift row phoneRow).2 = key row.2 :=
  key_fillName _ _

theorem indexOf_eq (rows : List (Int × Contact)) : indexOf rows = (keys rows).zipIdx.reverse := by
  rw [indexOf, keys, List.zipIdx_map]
  rfl

/-- One turn of the loop, with the positions up to date. -/
theorem fold_of_notMem {state : Merging} (current : state.index = indexOf state.merged)
    {phoneRow : Int × Contact} (unknown : key phoneRow.2 ∉ keys state.merged) :
    state.fold phoneRow = ⟨state.merged ++ [phoneRow], indexOf (state.merged ++ [phoneRow])⟩ := by
  rw [Merging.fold, current, lookup_indexOf_none.mpr unknown, indexOf_append]

theorem modify_append_cons (change : Int × Contact → Int × Contact)
    (front back : List (Int × Contact)) (row : Int × Contact) :
    (front ++ row :: back).modify front.length change = front ++ change row :: back := by
  induction front with
  | nil => rfl
  | cons other front inductionHypothesis =>
      rw [List.cons_append, List.length_cons, List.modify_succ_cons, inductionHypothesis]
      rfl

theorem fold_of_append {front back : List (Int × Contact)} {row phoneRow : Int × Contact}
    (same : key row.2 = key phoneRow.2) (last : key row.2 ∉ keys back) :
    Merging.fold ⟨front ++ row :: back, indexOf (front ++ row :: back)⟩ phoneRow =
      ⟨front ++ lift row phoneRow.2 :: back,
        indexOf (front ++ lift row phoneRow.2 :: back)⟩ := by
  have kept : keys (front ++ lift row phoneRow.2 :: back) = keys (front ++ row :: back) := by
    simp [keys, key_lift]
  rw [Merging.fold, ← same, lookup_indexOf last]
  dsimp only
  rw [modify_append_cons, indexOf_eq, indexOf_eq, kept]

/-- A turn keeps the addresses in their places. -/
theorem keys_fold {state : Merging} (current : state.index = indexOf state.merged)
    (phoneRow : Int × Contact) :
    (state.fold phoneRow).index = indexOf (state.fold phoneRow).merged ∧
      keys state.merged <+: keys (state.fold phoneRow).merged := by
  by_cases known : key phoneRow.2 ∈ keys state.merged
  · rw [Merging.fold]
    cases found : state.index.lookup (key phoneRow.2) with
    | none =>
        rw [current] at found
        exact absurd known (lookup_indexOf_none.mp found)
    | some i =>
        have kept : keys (state.merged.modify i (lift · phoneRow.2)) = keys state.merged :=
          map_modify (fun row => key_lift row phoneRow.2) _ _
        dsimp only
        rw [current, indexOf_eq, indexOf_eq, kept]
        exact ⟨rfl, List.prefix_rfl⟩
  · rw [fold_of_notMem current known]
    refine ⟨rfl, ?_⟩
    rw [keys, keys, List.map_append]
    exact List.prefix_append _ _

theorem keys_mergeRows (mail phone : List (Int × Contact)) :
    keys mail <+: keys (mergeRows mail phone) := by
  have run : ∀ (phone : List (Int × Contact)) (state : Merging),
      state.index = indexOf state.merged →
        keys state.merged <+: keys (phone.foldl Merging.fold state).merged := by
    intro phone
    induction phone with
    | nil => exact fun state _ => List.prefix_rfl
    | cons phoneRow phone inductionHypothesis =>
        intro state current
        obtain ⟨next, kept⟩ := keys_fold current phoneRow
        exact kept.trans (inductionHypothesis _ next)
  exact run phone ⟨mail, indexOf mail⟩ rfl

/-! ## The merged rows -/

/-- A mail row, lifted where one of the phone rows has its address. -/
def lifted (phone : List (Int × Contact)) (row : Int × Contact) : Int × Contact :=
  match phone.find? fun phoneRow => key phoneRow.2 = key row.2 with
  | some phoneRow => lift row phoneRow.2
  | none => row

/-- A phone row whose address no mail row has. -/
def unknown (mail : List (Int × Contact)) (phoneRow : Int × Contact) : Bool :=
  !(keys mail).contains (key phoneRow.2)

theorem key_lifted (phone : List (Int × Contact)) (row : Int × Contact) :
    key (lifted phone row).2 = key row.2 := by
  unfold lifted
  split
  · exact key_lift _ _
  · rfl

theorem keys_map_lifted (phone mail : List (Int × Contact)) :
    keys (mail.map (lifted phone)) = keys mail := by
  simp [keys, key_lifted]

theorem unknown_iff {mail : List (Int × Contact)} {phoneRow : Int × Contact} :
    unknown mail phoneRow = true ↔ key phoneRow.2 ∉ keys mail := by
  simp [unknown]

theorem mem_keys {rows : List (Int × Contact)} {address : List Char} :
    address ∈ keys rows ↔ ∃ row ∈ rows, key row.2 = address :=
  List.mem_map

theorem keys_append (first second : List (Int × Contact)) :
    keys (first ++ second) = keys first ++ keys second :=
  List.map_append

theorem keys_cons (row : Int × Contact) (rows : List (Int × Contact)) :
    keys (row :: rows) = key row.2 :: keys rows :=
  rfl

theorem lifted_of_notMem {phone : List (Int × Contact)} {row : Int × Contact}
    (absent : key row.2 ∉ keys phone) : lifted phone row = row := by
  have missing : phone.find? (fun phoneRow => key phoneRow.2 = key row.2) = none := by
    rw [List.find?_eq_none]
    intro phoneRow member same
    exact absent (mem_keys.mpr ⟨phoneRow, member, by simpa using same⟩)
  rw [lifted, missing]

theorem lifted_concat_of_ne {phone : List (Int × Contact)} {row phoneRow : Int × Contact}
    (differs : key phoneRow.2 ≠ key row.2) :
    lifted (phone ++ [phoneRow]) row = lifted phone row := by
  rw [lifted, lifted, List.find?_append]
  simp [differs]

theorem lifted_concat {phone : List (Int × Contact)} {row phoneRow : Int × Contact}
    (same : key phoneRow.2 = key row.2) (absent : key row.2 ∉ keys phone) :
    lifted (phone ++ [phoneRow]) row = lift row phoneRow.2 := by
  have missing : phone.find? (fun phoneRow => key phoneRow.2 = key row.2) = none := by
    rw [List.find?_eq_none]
    intro other member equal
    exact absent (mem_keys.mpr ⟨other, member, by simpa using equal⟩)
  rw [lifted, List.find?_append, missing]
  simp [same]

/-- The rows that merging makes of distinct mail rows. -/
def mergedRows (mail phone : List (Int × Contact)) : List (Int × Contact) :=
  mail.map (lifted phone) ++ phone.filter (unknown mail)

theorem fold_mergedRows {mail phone : List (Int × Contact)} {phoneRow : Int × Contact}
    (distinct : (keys mail).Nodup) (fresh : key phoneRow.2 ∉ keys phone) :
    Merging.fold ⟨mergedRows mail phone, indexOf (mergedRows mail phone)⟩ phoneRow =
      ⟨mergedRows mail (phone ++ [phoneRow]),
        indexOf (mergedRows mail (phone ++ [phoneRow]))⟩ := by
  have apart : key phoneRow.2 ∉ keys (phone.filter (unknown mail)) := by
    rw [mem_keys]
    rintro ⟨row, member, same⟩
    exact fresh (mem_keys.mpr ⟨row, (List.mem_filter.mp member).1, same⟩)
  by_cases known : key phoneRow.2 ∈ keys mail
  · obtain ⟨row, member, same⟩ := mem_keys.mp known
    obtain ⟨front, back, rfl⟩ := List.append_of_mem member
    rw [keys_append, keys_cons, List.nodup_append] at distinct
    obtain ⟨-, behind, disjoint⟩ := distinct
    have last := (List.nodup_cons.mp behind).1
    have first : key row.2 ∉ keys front := fun inside =>
      disjoint _ inside _ List.mem_cons_self rfl
    have others : ∀ rows : List (Int × Contact), key row.2 ∉ keys rows →
        rows.map (lifted (phone ++ [phoneRow])) = rows.map (lifted phone) := by
      intro rows absent
      refine List.map_congr_left fun other inside => lifted_concat_of_ne fun equal => ?_
      exact absent (mem_keys.mpr ⟨other, inside, equal.symm.trans same.symm⟩)
    have before : mergedRows (front ++ row :: back) phone = front.map (lifted phone) ++
        row :: (back.map (lifted phone) ++ phone.filter (unknown (front ++ row :: back))) := by
      rw [mergedRows, List.map_append, List.map_cons, lifted_of_notMem (same ▸ fresh),
        List.append_assoc]
      rfl
    have after : mergedRows (front ++ row :: back) (phone ++ [phoneRow]) =
        front.map (lifted phone) ++ lift row phoneRow.2 ::
          (back.map (lifted phone) ++ phone.filter (unknown (front ++ row :: back))) := by
      have met : unknown (front ++ row :: back) phoneRow = false := by
        rw [← Bool.not_eq_true, unknown_iff]
        exact not_not_intro known
      rw [mergedRows, List.map_append, List.map_cons, lifted_concat same.symm (same ▸ fresh),
        others front first, others back last, List.filter_append,
        List.filter_cons_of_neg (by simp [met]), List.filter_nil, List.append_nil,
        List.append_assoc]
      rfl
    rw [before, after]
    refine fold_of_append same ?_
    rw [keys_append, keys_map_lifted, List.mem_append, not_or, same]
    exact ⟨same ▸ last, apart⟩
  · have after : mergedRows mail (phone ++ [phoneRow]) = mergedRows mail phone ++ [phoneRow] := by
      have others : mail.map (lifted (phone ++ [phoneRow])) = mail.map (lifted phone) := by
        refine List.map_congr_left fun other inside => lifted_concat_of_ne fun equal => ?_
        exact known (mem_keys.mpr ⟨other, inside, equal.symm⟩)
      rw [mergedRows, mergedRows, others, List.filter_append,
        List.filter_cons_of_pos (unknown_iff.mpr known), List.filter_nil, List.append_assoc]
    rw [after]
    refine fold_of_notMem rfl ?_
    rw [mergedRows, keys_append, keys_map_lifted, List.mem_append, not_or]
    exact ⟨known, apart⟩

theorem mergeRows_eq {mail phone : List (Int × Contact)} (distinct : (keys mail).Nodup)
    (phoneDistinct : (keys phone).Nodup) : mergeRows mail phone = mergedRows mail phone := by
  have run : ∀ (later phone : List (Int × Contact)), (keys (phone ++ later)).Nodup →
      later.foldl Merging.fold ⟨mergedRows mail phone, indexOf (mergedRows mail phone)⟩ =
        ⟨mergedRows mail (phone ++ later), indexOf (mergedRows mail (phone ++ later))⟩ := by
    intro later
    induction later with
    | nil => simp
    | cons phoneRow later inductionHypothesis =>
        intro phone nodup
        have fresh : key phoneRow.2 ∉ keys phone := by
          rw [keys_append, keys_cons, List.nodup_append] at nodup
          exact fun inside => nodup.2.2 _ inside _ List.mem_cons_self rfl
        rw [List.foldl_cons, fold_mergedRows distinct fresh]
        have rest := inductionHypothesis (phone ++ [phoneRow]) (by simpa using nodup)
        rw [rest]
        simp
  have whole := run phone [] phoneDistinct
  have start : mergedRows mail [] = mail := by
    have same : mail.map (lifted []) = mail := by
      conv_rhs => rw [← List.map_id mail]
      exact List.map_congr_left fun row _ => rfl
    rw [mergedRows, same, List.filter_nil, List.append_nil]
  rw [start, List.nil_append] at whole
  rw [mergeRows, whole]

/-- Merged rows have each address once. -/
theorem nodup_keys_mergedRows {mail phone : List (Int × Contact)} (distinct : (keys mail).Nodup)
    (phoneDistinct : (keys phone).Nodup) : (keys (mergedRows mail phone)).Nodup := by
  rw [mergedRows, keys_append, keys_map_lifted]
  refine distinct.append (phoneDistinct.sublist (List.filter_sublist.map _)) ?_
  intro address inside outside
  obtain ⟨row, member, rfl⟩ := mem_keys.mp outside
  exact unknown_iff.mp (List.mem_filter.mp member).2 inside

end Contacts
end Mailcore

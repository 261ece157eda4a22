import Mathlib.Data.List.Sort

/-!
# The first elements of a sorted list

A stable sort puts in front of an element those that come before it and do not
rank below it, and those that come behind it and rank above it.  The first
elements of a sorted list do not depend on what is not among them.
-/

namespace Mailcore
namespace Data

variable {α : Type} {le : α → α → Bool}

section Sorted

variable
  (trans : ∀ first second third : α,
    le first second → le second third → le first third)
  (total : ∀ first second : α, (le first second || le second first) = true)

include trans total

/-- Sorting what is kept is keeping of what is sorted. -/
theorem filter_mergeSort (kept : α → Bool) (list : List α) :
    (list.mergeSort le).filter kept = (list.filter kept).mergeSort le := by
  induction list with
  | nil => simp
  | cons element list inductionHypothesis =>
      obtain ⟨front, back, sorted, rest, above⟩ := List.mergeSort_cons trans total element list
      rw [rest, List.filter_append] at inductionHypothesis
      rw [sorted, List.filter_append]
      by_cases here : kept element = true
      · rw [List.filter_cons_of_pos here, List.filter_cons_of_pos here]
        obtain ⟨front', back', sorted', rest', above'⟩ :=
          List.mergeSort_cons trans total element (list.filter kept)
        rw [sorted']
        have ordered := List.pairwise_mergeSort trans total (element :: list)
        have ordered' := List.pairwise_mergeSort trans total (element :: list.filter kept)
        rw [sorted] at ordered
        rw [sorted'] at ordered'
        -- both cuts are where the elements stop ranking above the new one
        have cut : ∀ {above_ below : List α}, (∀ other ∈ above_, (!le element other) = true) →
            (∀ other ∈ below, le element other = true) →
            (above_ ++ below).takeWhile (fun other => !le element other) = above_ ∧
              (above_ ++ below).dropWhile (fun other => !le element other) = below := by
          intro above_ below high low
          rw [List.takeWhile_append_of_pos high, List.dropWhile_append_of_pos high]
          cases below with
          | nil => simp
          | cons other below => simp [low other List.mem_cons_self]
        have low : ∀ other ∈ back.filter kept, le element other = true := fun other member =>
          (List.pairwise_cons.mp (List.pairwise_append.mp ordered).2.1).1 other
            (List.mem_filter.mp member).1
        have low' : ∀ other ∈ back', le element other = true :=
          (List.pairwise_cons.mp (List.pairwise_append.mp ordered').2.1).1
        have high : ∀ other ∈ front.filter kept, (!le element other) = true :=
          fun other member => above other (List.mem_filter.mp member).1
        rw [rest'] at inductionHypothesis
        have first := cut high low
        have second := cut above' low'
        rw [inductionHypothesis] at first
        rw [← first.1, ← first.2, second.1, second.2]
      · rw [List.filter_cons_of_neg here, List.filter_cons_of_neg here]
        exact inductionHypothesis

/-- The first elements are found without what is not among them. -/
theorem take_mergeSort_filter {kept : α → Bool} {list : List α} {count : Nat}
    (leading : ∀ element ∈ (list.mergeSort le).take count, kept element) :
    ((list.filter kept).mergeSort le).take count = (list.mergeSort le).take count := by
  rw [← filter_mergeSort trans total]
  generalize list.mergeSort le = sorted at leading
  conv_lhs => rw [← List.take_append_drop count sorted]
  rw [List.filter_append, List.filter_eq_self.mpr leading]
  rcases Nat.le_total count sorted.length with enough | short
  · exact List.take_left' (List.length_take_of_le enough)
  · rw [List.drop_of_length_le short, List.filter_nil, List.append_nil, List.take_take,
      Nat.min_self]

end Sorted

/-- How many elements a stable sort puts in front of one, by those in front of
it and behind it. -/
def ahead (le : α → α → Bool) (front : List α) (element : α) (back : List α) : Nat :=
  front.countP (fun other => le other element) + back.countP fun other => !le element other

theorem mem_front_of_sublist {first element : α} {front back : List α}
    (nodup : (front ++ element :: back).Nodup)
    (within : [first, element].Sublist (front ++ element :: back)) : first ∈ front := by
  have last : element ∉ back :=
    (List.nodup_cons.mp (List.nodup_append.mp nodup).2.1).1
  obtain ⟨early, late, shape, leads, follows⟩ := List.sublist_append_iff.mp within
  cases early with
  | nil =>
      rw [List.nil_append] at shape
      subst shape
      rcases List.sublist_cons_iff.mp follows with inside | ⟨rest, same, inside⟩
      · exact absurd (inside.subset (by simp)) last
      · obtain ⟨-, rfl⟩ := List.cons.inj same
        exact absurd (inside.subset (List.mem_singleton_self _)) last
  | cons other early =>
      obtain ⟨rfl, -⟩ := List.cons.inj shape
      exact leads.subset List.mem_cons_self

theorem mem_take_append_cons {element : α} {front back : List α} {count : Nat}
    (nodup : (front ++ element :: back).Nodup) :
    element ∈ (front ++ element :: back).take count ↔ front.length < count := by
  have apart : element ∉ front := by
    intro member
    exact List.disjoint_of_nodup_append nodup member List.mem_cons_self
  rw [List.take_append, List.mem_append]
  constructor
  · rintro (inside | inside)
    · exact absurd (List.mem_of_mem_take inside) apart
    · by_contra short
      rw [Nat.sub_eq_zero_of_le (Nat.le_of_not_lt short)] at inside
      cases inside
  · intro long
    right
    obtain ⟨rest, same⟩ := Nat.exists_eq_add_of_lt long
    rw [same]
    have more : front.length + rest + 1 - front.length = rest + 1 := by omega
    rw [more, List.take_succ_cons]
    exact List.mem_cons_self

section Sorted

variable
  (trans : ∀ first second third : α,
    le first second → le second third → le first third)
  (total : ∀ first second : α, (le first second || le second first) = true)

include trans total

/-- What a stable sort puts in front of an element. -/
theorem mem_front_mergeSort {front back before after : List α} {element : α}
    (nodup : (front ++ element :: back).Nodup)
    (sorted : (front ++ element :: back).mergeSort le = before ++ element :: after) (other : α) :
    other ∈ before ↔ other ∈ front ∧ le other element = true ∨
      other ∈ back ∧ le element other = false := by
  have perm := List.mergeSort_perm (front ++ element :: back) le
  have ordered := List.pairwise_mergeSort trans total (front ++ element :: back)
  have sortedNodup := perm.nodup_iff.mpr nodup
  rw [sorted] at perm ordered sortedNodup
  have parts := List.pairwise_append.mp ordered
  have stable : ∀ first second, le first second = true →
      [first, second].Sublist (front ++ element :: back) →
        [first, second].Sublist (before ++ element :: after) := by
    intro first second ranked within
    rw [← sorted]
    exact List.pair_sublist_mergeSort trans total ranked within
  have pair : other ∈ front → [other, element].Sublist (front ++ element :: back) := by
    intro inside
    exact (List.singleton_sublist.mpr inside).append
      (List.singleton_sublist.mpr List.mem_cons_self)
  constructor
  · intro inside
    have ranked : le other element = true := parts.2.2 other inside element List.mem_cons_self
    have apart : other ≠ element := by
      rintro rfl
      exact List.disjoint_of_nodup_append sortedNodup inside List.mem_cons_self
    have known := perm.subset (List.mem_append_left _ inside)
    rcases List.mem_append.mp known with early | late
    · exact .inl ⟨early, ranked⟩
    · have behind := (List.mem_cons.mp late).resolve_left apart
      refine .inr ⟨behind, ?_⟩
      by_contra tied
      rw [Bool.not_eq_false] at tied
      have turned : [element, other].Sublist (front ++ element :: back) :=
        ((List.singleton_sublist.mpr behind).cons_cons element).trans
          (List.sublist_append_right _ _)
      have kept := stable element other tied turned
      obtain ⟨early, late, rfl⟩ := List.append_of_mem inside
      rw [List.append_assoc, List.cons_append] at kept sortedNodup
      have leads := mem_front_of_sublist sortedNodup kept
      exact List.disjoint_of_nodup_append sortedNodup leads (by simp)
  · rintro (⟨early, ranked⟩ | ⟨late, above⟩)
    · exact mem_front_of_sublist sortedNodup (stable other element ranked (pair early))
    · have known := perm.symm.subset (List.mem_append_right front (List.mem_cons_of_mem element late))
      rcases List.mem_append.mp known with inside | behind
      · exact inside
      · rcases List.mem_cons.mp behind with rfl | after_
        · exact absurd late (List.nodup_cons.mp (List.nodup_append.mp nodup).2.1).1
        · have below := (List.pairwise_cons.mp parts.2.1).1 other after_
          rw [above] at below
          cases below

/-- An element is among the first exactly where few enough come ahead of it. -/
theorem mem_take_mergeSort {front back : List α} {element : α} {count : Nat}
    (nodup : (front ++ element :: back).Nodup) :
    element ∈ ((front ++ element :: back).mergeSort le).take count ↔
      ahead le front element back < count := by
  have member : element ∈ (front ++ element :: back).mergeSort le := by simp
  obtain ⟨before, after, sorted⟩ := List.append_of_mem member
  have sortedNodup := (List.mergeSort_perm (front ++ element :: back) le).nodup_iff.mpr nodup
  rw [sorted] at sortedNodup
  have length : before.length = ahead le front element back := by
    have parts := List.nodup_append.mp nodup
    have same : before.Perm (front.filter (fun other => le other element) ++
        back.filter fun other => !le element other) := by
      refine (List.perm_ext_iff_of_nodup (List.nodup_append.mp sortedNodup).1 ?_).mpr fun other => ?_
      · exact nodup.sublist (List.filter_sublist.append (List.filter_sublist.cons element))
      · rw [mem_front_mergeSort trans total nodup sorted, List.mem_append, List.mem_filter,
          List.mem_filter, Bool.not_eq_true']
    rw [same.length_eq, List.length_append, ahead, List.countP_eq_length_filter,
      List.countP_eq_length_filter]
  rw [sorted, mem_take_append_cons sortedNodup, length]

/-- What is among the first ranks above what is not. -/
theorem le_of_mem_take_mergeSort {list : List α} {first second : α} {count : Nat}
    (leads : first ∈ (list.mergeSort le).take count) (member : second ∈ list)
    (behind : second ∉ (list.mergeSort le).take count) : le first second = true := by
  have ordered := List.pairwise_mergeSort trans total list
  have known : second ∈ list.mergeSort le := List.mem_mergeSort.mpr member
  rw [← List.take_append_drop count (list.mergeSort le)] at ordered known
  have late := (List.mem_append.mp known).resolve_left behind
  exact (List.pairwise_append.mp ordered).2.2 first leads second late

/-- What stands below enough of the elements is not among the first. -/
theorem notMem_take_of_below {list above : List α} {element : α} {count : Nat}
    (nodup : list.Nodup) (member : element ∈ list) (distinct : above.Nodup)
    (known : ∀ other ∈ above, other ∈ list) (enough : count ≤ above.length)
    (below : ∀ other ∈ above, le element other = false) :
    element ∉ (list.mergeSort le).take count := by
  obtain ⟨front, back, rfl⟩ := List.append_of_mem member
  rw [mem_take_mergeSort trans total nodup, Nat.not_lt]
  refine Nat.le_trans enough ?_
  have within : above ⊆ front.filter (fun other => le other element) ++
      back.filter fun other => !le element other := by
    intro other inside
    have strict := below other inside
    have ranked : le other element = true := by
      have either := total other element
      rwa [strict, Bool.or_false] at either
    rw [List.mem_append, List.mem_filter, List.mem_filter]
    rcases List.mem_append.mp (known other inside) with early | late
    · exact .inl ⟨early, ranked⟩
    · rcases List.mem_cons.mp late with rfl | behind
      · rw [strict] at ranked
        cases ranked
      · exact .inr ⟨behind, by rw [strict]; rfl⟩
  have shorter := (List.subperm_of_subset distinct within).length_le
  rwa [List.length_append, ← List.countP_eq_length_filter, ← List.countP_eq_length_filter]
    at shorter

end Sorted

end Data
end Mailcore

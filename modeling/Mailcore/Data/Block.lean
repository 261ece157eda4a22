import Mathlib.Data.List.Sort
import Mathlib.Order.RelClasses

/-!
# Sorted lists and their blocks

A stable sort keeps the order of what it cannot tell apart.  In a list that is
strictly sorted, what belongs to an element stands right behind it exactly when
nothing else lies between the two.
-/

namespace Mailcore
namespace Data

/-! ## Stability -/

section Stable

variable {α : Type} {le : α → α → Bool}

/-- Neither comes before the other. -/
def Tied (le : α → α → Bool) (first second : α) : Bool :=
  le first second && le second first

variable
  (trans : ∀ first second third : α,
    le first second → le second third → le first third)
  (total : ∀ first second : α, (le first second || le second first) = true)

include trans total

/-- The elements tied with one keep their order. -/
theorem filter_tied_mergeSort (list : List α) (element : α) :
    (list.mergeSort le).filter (Tied le element) =
      list.filter (Tied le element) := by
  have tied : (list.filter (Tied le element)).Pairwise
      (fun first second => le first second = true) := by
    refine List.pairwise_of_forall_mem_list fun first left second right => ?_
    have left := (List.mem_filter.mp left).2
    have right := (List.mem_filter.mp right).2
    unfold Tied at left right
    rw [Bool.and_eq_true] at left right
    exact trans _ _ _ left.2 right.1
  have kept := (List.sublist_mergeSort trans total tied List.filter_sublist).filter
    (Tied le element)
  simp only [List.filter_filter, Bool.and_self] at kept
  exact (kept.eq_of_length
    ((List.mergeSort_perm list le).filter _).length_eq.symm).symm

/-- A stable sort of a sorted list breaks its ties by the old order. -/
theorem pairwise_mergeSort_of_pairwise
    {before : α → α → Prop} {list : List α} (sorted : list.Pairwise before) :
    (list.mergeSort le).Pairwise fun first second =>
      le first second = true ∧ (le second first = true → before first second) := by
  rw [List.pairwise_iff_forall_sublist]
  intro first second inside
  have ordered := List.pairwise_iff_forall_sublist.mp
    (List.pairwise_mergeSort trans total list) inside
  refine ⟨ordered, fun back => ?_⟩
  have reflexive : le first first = true := trans _ _ _ ordered back
  have pair := inside.filter (Tied le first)
  rw [filter_tied_mergeSort trans total,
    List.filter_eq_self.mpr (by simp [Tied, ordered, back, reflexive])] at pair
  exact List.pairwise_iff_forall_sublist.mp sorted (pair.trans List.filter_sublist)

end Stable

/-! ## Blocks -/

section Block

variable {α : Type}

/-- The head stands right in front of everything that belongs to it, and of
nothing else. -/
def Heads (belongs : α → Prop) (head : α) (list : List α) : Prop :=
  ∃ front block back, list = front ++ head :: (block ++ back) ∧
    (∀ element ∈ block, belongs element) ∧
      ∀ element ∈ front ++ back, ¬belongs element

variable {less : α → α → Prop} [IsStrictOrder α less] {belongs : α → Prop}

/-- Where nothing else comes before what belongs, it is a block in front. -/
theorem exists_block
    {list : List α} (sorted : list.Pairwise less)
    (first : ∀ element ∈ list, belongs element →
      ∀ other ∈ list, ¬belongs other → less element other) :
    ∃ block back, list = block ++ back ∧
      (∀ element ∈ block, belongs element) ∧
        ∀ element ∈ back, ¬belongs element := by
  induction list with
  | nil => exact ⟨[], [], rfl, by simp, by simp⟩
  | cons head tail inductionHypothesis =>
      rw [List.pairwise_cons] at sorted
      by_cases own : belongs head
      · obtain ⟨block, back, rfl, inside, outside⟩ :=
          inductionHypothesis sorted.2 fun element member own other otherMember =>
            first element (List.mem_cons_of_mem _ member) own other
              (List.mem_cons_of_mem _ otherMember)
        refine ⟨head :: block, back, rfl, ?_, outside⟩
        exact List.forall_mem_cons.mpr ⟨own, inside⟩
      · refine ⟨[], head :: tail, rfl, by simp, ?_⟩
        refine List.forall_mem_cons.mpr ⟨own, fun element member owned => ?_⟩
        exact asymm (sorted.1 element member) (first element
          (List.mem_cons_of_mem _ member) owned head List.mem_cons_self own)

/-- In a sorted list a head stands in front of what belongs to it exactly when
it comes before, and all else comes before the head or behind the block. -/
theorem heads_iff
    {head : α} {list : List α}
    (sorted : list.Pairwise less) (member : head ∈ list)
    (apart : ¬belongs head) :
    Heads belongs head list ↔
      ∀ element ∈ list, belongs element → less head element ∧
        ∀ other ∈ list, other ≠ head → ¬belongs other →
          less other head ∨ less element other := by
  constructor
  · rintro ⟨front, block, back, rfl, inside, outside⟩ element elementMember own
    rw [List.pairwise_append, List.pairwise_cons, List.pairwise_append] at sorted
    obtain ⟨-, ⟨ahead, -, -, blockBack⟩, frontAhead⟩ := sorted
    simp only [List.mem_append, List.mem_cons] at elementMember outside
    have inBlock : element ∈ block := by
      rcases elementMember with front | rfl | block | back
      · exact absurd own (outside _ (.inl front))
      · exact absurd own apart
      · exact block
      · exact absurd own (outside _ (.inr back))
    refine ⟨ahead _ (List.mem_append_left _ inBlock), ?_⟩
    intro other otherMember different foreign
    simp only [List.mem_append, List.mem_cons] at otherMember
    rcases otherMember with front | rfl | block | back
    · exact .inl (frontAhead _ front _ List.mem_cons_self)
    · exact absurd rfl different
    · exact absurd (inside _ block) foreign
    · exact .inr (blockBack _ inBlock _ back)
  · intro clear
    obtain ⟨front, tail, rfl⟩ := List.append_of_mem member
    rw [List.pairwise_append, List.pairwise_cons] at sorted
    obtain ⟨-, ⟨ahead, tailSorted⟩, frontAhead⟩ := sorted
    have within : ∀ {element}, element ∈ tail → element ∈ front ++ head :: tail :=
      fun inside => List.mem_append_right _ (List.mem_cons_of_mem _ inside)
    obtain ⟨block, back, rfl, inside, outside⟩ : ∃ block back, tail = block ++ back ∧
        (∀ element ∈ block, belongs element) ∧
          ∀ element ∈ back, ¬belongs element := by
      refine exists_block tailSorted fun element member own other otherMember foreign => ?_
      have after := ahead other otherMember
      have different : other ≠ head := fun same => irrefl head (same ▸ after)
      exact ((clear element (within member) own).2 other (within otherMember)
        different foreign).resolve_left (asymm after)
    refine ⟨front, block, back, rfl, inside, ?_⟩
    intro element member own
    rcases List.mem_append.mp member with inFront | inBack
    · exact asymm (clear element (List.mem_append_left _ inFront) own).1
        (frontAhead _ inFront _ List.mem_cons_self)
    · exact outside element inBack own

end Block

end Data
end Mailcore

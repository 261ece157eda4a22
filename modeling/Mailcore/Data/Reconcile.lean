import Mathlib.Data.List.AList

/-!
# Reconciling a board

A board holds one value a key.  It is brought to the wanted entries by removing
every other key and posting the entries that differ.
-/

namespace Mailcore
namespace Data

variable {κ ν : Type} [DecidableEq κ]

/-- One value a key. -/
abbrev Board (κ ν : Type) := AList fun _ : κ => ν

/-- Remove the cancelled keys, then put the posted entries. -/
def Board.carryOut (board : Board κ ν) (post : List (κ × ν))
    (cancel : List κ) : Board κ ν :=
  post.foldl (fun board entry => board.insert entry.1 entry.2)
    (cancel.foldl (fun board key => board.erase key) board)

theorem lookup_foldl_erase (board : Board κ ν) (cancel : List κ) (key : κ) :
    (cancel.foldl (fun board key => board.erase key) board).lookup key =
      if key ∈ cancel then none else board.lookup key := by
  induction cancel generalizing board with
  | nil => rfl
  | cons head tail inductionHypothesis =>
      rw [List.foldl_cons, inductionHypothesis]
      by_cases same : key = head
      · subst same
        simp
      · simp [same, AList.lookup_erase_ne same]

theorem lookup_foldl_insert_unposted
    {post : List (κ × ν)}
    {key : κ}
    (unposted : key ∉ post.map Prod.fst)
    (board : Board κ ν) :
    (post.foldl (fun board entry => board.insert entry.1 entry.2) board).lookup
      key = board.lookup key := by
  induction post generalizing board with
  | nil => rfl
  | cons head tail inductionHypothesis =>
      rw [List.map_cons, List.mem_cons, not_or] at unposted
      rw [List.foldl_cons, inductionHypothesis unposted.2,
        AList.lookup_insert_ne unposted.1]

theorem lookup_foldl_insert_posted
    {post : List (κ × ν)}
    {entry : κ × ν}
    (distinct : (post.map Prod.fst).Nodup)
    (posted : entry ∈ post)
    (board : Board κ ν) :
    (post.foldl (fun board entry => board.insert entry.1 entry.2) board).lookup
      entry.1 = some entry.2 := by
  induction post generalizing board with
  | nil => cases posted
  | cons head tail inductionHypothesis =>
      rw [List.map_cons, List.nodup_cons] at distinct
      rw [List.foldl_cons]
      rcases List.mem_cons.mp posted with rfl | later
      · rw [lookup_foldl_insert_unposted distinct.1, AList.lookup_insert]
      · exact inductionHypothesis distinct.2 later _

/-- The wanted entries: one value a key, and what is not posted is on the
board already. -/
structure Reconciles
    (board : Board κ ν)
    (wanted post : List (κ × ν))
    (cancel : List κ) : Prop where
  distinct : (wanted.map Prod.fst).Nodup
  sublist : post.Sublist wanted
  settled : ∀ entry ∈ wanted, entry ∉ post →
    board.lookup entry.1 = some entry.2
  cancelled : ∀ key, key ∈ cancel ↔ key ∈ board ∧ key ∉ wanted.map Prod.fst

namespace Reconciles

variable {board : Board κ ν} {wanted post : List (κ × ν)} {cancel : List κ}

/-- A wanted entry is on the board afterwards. -/
theorem lookup_wanted [DecidableEq ν]
    (reconciles : Reconciles board wanted post cancel)
    {entry : κ × ν}
    (member : entry ∈ wanted) :
    (board.carryOut post cancel).lookup entry.1 = some entry.2 := by
  have postDistinct : (post.map Prod.fst).Nodup :=
    (reconciles.sublist.map Prod.fst).nodup reconciles.distinct
  by_cases posted : entry ∈ post
  · exact lookup_foldl_insert_posted postDistinct posted _
  · have unposted : entry.1 ∉ post.map Prod.fst := by
      intro inside
      obtain ⟨other, otherPosted, sameKey⟩ := List.mem_map.mp inside
      have same : other = entry :=
        List.inj_on_of_nodup_map reconciles.distinct
          (reconciles.sublist.subset otherPosted) member sameKey
      exact posted (same ▸ otherPosted)
    have kept : entry.1 ∉ cancel := by
      intro cancelled
      exact ((reconciles.cancelled _).mp cancelled).2
        (List.mem_map_of_mem member)
    rw [Board.carryOut, lookup_foldl_insert_unposted unposted,
      lookup_foldl_erase, if_neg kept, reconciles.settled entry member posted]

/-- Nothing else is on the board afterwards. -/
theorem mem_carryOut [DecidableEq ν]
    (reconciles : Reconciles board wanted post cancel)
    (key : κ) :
    key ∈ board.carryOut post cancel ↔ key ∈ wanted.map Prod.fst := by
  constructor
  · intro present
    by_contra unwanted
    have unposted : key ∉ post.map Prod.fst := by
      intro posted
      exact unwanted ((reconciles.sublist.map Prod.fst).subset posted)
    rw [← AList.lookup_isSome, Board.carryOut,
      lookup_foldl_insert_unposted unposted, lookup_foldl_erase] at present
    by_cases cancelled : key ∈ cancel
    · rw [if_pos cancelled] at present
      cases present
    · rw [if_neg cancelled, AList.lookup_isSome] at present
      exact cancelled ((reconciles.cancelled key).mpr ⟨present, unwanted⟩)
  · intro inside
    obtain ⟨entry, member, rfl⟩ := List.mem_map.mp inside
    rw [← AList.lookup_isSome, reconciles.lookup_wanted member]
    rfl

end Reconciles

end Data
end Mailcore

import Mathlib.Data.List.Basic

/-!
# Lineages

Nodes that name at most one parent, along which a rank falls.  The ancestors of
a node, nearest first, are what a walk to the top visits.
-/

namespace Mailcore
namespace Data

/-- Parents, and a rank that is smaller the higher a node is. -/
structure Ancestry (α : Type) where
  parent : α → Option α
  rank : α → Nat
  falls : ∀ node above, parent node = some above → rank above < rank node

namespace Ancestry

variable {α : Type} (ancestry : Ancestry α)

/-- The walk upwards, at most so many steps. -/
def climb : Nat → α → List α
  | 0, _ => []
  | fuel + 1, node =>
      match ancestry.parent node with
      | none => []
      | some above => above :: climb fuel above

/-- The ancestors of a node, nearest first. -/
def lineage (node : α) : List α :=
  ancestry.climb (ancestry.rank node) node

variable {ancestry}

/-- As many steps as the rank reach the top. -/
theorem climb_eq_climb
    {node : α} {fuel more : Nat}
    (enough : ancestry.rank node ≤ fuel)
    (enough' : ancestry.rank node ≤ more) :
    ancestry.climb fuel node = ancestry.climb more node := by
  induction fuel generalizing node more with
  | zero =>
      cases more with
      | zero => rfl
      | succ more =>
          cases above : ancestry.parent node with
          | none => simp [climb, above]
          | some parent =>
              have less := ancestry.falls node parent above
              omega
  | succ fuel inductionHypothesis =>
      cases above : ancestry.parent node with
      | none => cases more <;> simp [climb, above]
      | some parent =>
          have less := ancestry.falls node parent above
          cases more with
          | zero => omega
          | succ more =>
              simp only [climb, above]
              rw [inductionHypothesis (by omega) (show ancestry.rank parent ≤ more by omega)]

theorem lineage_of_root {node : α} (root : ancestry.parent node = none) :
    ancestry.lineage node = [] := by
  unfold lineage
  cases ancestry.rank node <;> simp [climb, root]

theorem lineage_of_parent
    {node above : α}
    (child : ancestry.parent node = some above) :
    ancestry.lineage node = above :: ancestry.lineage above := by
  have less := ancestry.falls node above child
  unfold lineage
  obtain ⟨fuel, height⟩ : ∃ fuel, ancestry.rank node = fuel + 1 :=
    ⟨ancestry.rank node - 1, by omega⟩
  rw [height]
  simp only [climb, child]
  rw [climb_eq_climb (show ancestry.rank above ≤ fuel by omega) (Nat.le_refl _)]

/-- Induction from the top down. -/
theorem induct
    {motive : α → Prop}
    (root : ∀ node, ancestry.parent node = none → motive node)
    (child : ∀ node above, ancestry.parent node = some above → motive above →
      motive node)
    (node : α) : motive node := by
  induction height : ancestry.rank node using Nat.strongRecOn generalizing node with
  | ind height inductionHypothesis =>
      subst height
      cases found : ancestry.parent node with
      | none => exact root node found
      | some above =>
          exact child node above found
            (inductionHypothesis _ (ancestry.falls node above found) above rfl)

theorem rank_lt_of_mem_lineage
    {node above : α}
    (member : above ∈ ancestry.lineage node) :
    ancestry.rank above < ancestry.rank node := by
  induction node using ancestry.induct with
  | root node root => simp [lineage_of_root root] at member
  | child node parent child inductionHypothesis =>
      rw [lineage_of_parent child] at member
      have less := ancestry.falls node parent child
      rcases List.mem_cons.mp member with rfl | member
      · exact less
      · exact Nat.lt_trans (inductionHypothesis member) less

theorem notMem_lineage (node : α) : node ∉ ancestry.lineage node :=
  fun member => Nat.lt_irrefl _ (rank_lt_of_mem_lineage member)

/-- Behind an ancestor come its own ancestors. -/
theorem lineage_suffix
    {node above : α}
    (member : above ∈ ancestry.lineage node) :
    above :: ancestry.lineage above <:+ ancestry.lineage node := by
  induction node using ancestry.induct with
  | root node root => simp [lineage_of_root root] at member
  | child node parent child inductionHypothesis =>
      rw [lineage_of_parent child] at member ⊢
      rcases List.mem_cons.mp member with rfl | member
      · exact List.suffix_rfl
      · exact (inductionHypothesis member).trans (List.suffix_cons _ _)

theorem mem_lineage_trans
    {node above top : α}
    (first : above ∈ ancestry.lineage node)
    (second : top ∈ ancestry.lineage above) :
    top ∈ ancestry.lineage node :=
  (lineage_suffix first).subset (List.mem_cons_of_mem _ second)

/-- Of two ancestors one is the other's. -/
theorem lineage_total
    {node first second : α}
    (one : first ∈ ancestry.lineage node)
    (two : second ∈ ancestry.lineage node) :
    first = second ∨ first ∈ ancestry.lineage second ∨
      second ∈ ancestry.lineage first := by
  induction node using ancestry.induct with
  | root node root => simp [lineage_of_root root] at one
  | child node parent child inductionHypothesis =>
      rw [lineage_of_parent child] at one two
      rcases List.mem_cons.mp one with rfl | one
      · rcases List.mem_cons.mp two with rfl | two
        · exact Or.inl rfl
        · exact Or.inr (Or.inr two)
      · rcases List.mem_cons.mp two with rfl | two
        · exact Or.inr (Or.inl one)
        · exact inductionHypothesis one two

/-! ## The nearest marked node -/

/-- The nearest of a node and its ancestors that is marked. -/
def nearest (ancestry : Ancestry α) (marked : α → Bool) (node : α) : Option α :=
  (node :: ancestry.lineage node).find? marked

theorem nearest_of_marked
    {marked : α → Bool} {node : α}
    (holds : marked node = true) :
    ancestry.nearest marked node = some node := by
  simp [nearest, holds]

theorem nearest_of_parent
    {marked : α → Bool} {node above : α}
    (child : ancestry.parent node = some above)
    (fails : marked node = false) :
    ancestry.nearest marked node = ancestry.nearest marked above := by
  simp [nearest, fails, lineage_of_parent child]

/-- The nearest marked node is the node itself or its ancestor. -/
theorem mem_of_nearest
    {marked : α → Bool} {node found : α}
    (near : ancestry.nearest marked node = some found) :
    marked found = true ∧ (found = node ∨ found ∈ ancestry.lineage node) := by
  unfold nearest at near
  exact ⟨List.find?_some near, List.mem_cons.mp (List.mem_of_find?_eq_some near)⟩

/-- Every marked ancestor is at or above the nearest one. -/
theorem mem_lineage_nearest
    {marked : α → Bool} {node found other : α}
    (near : ancestry.nearest marked node = some found)
    (fails : marked node = false)
    (above : other ∈ ancestry.lineage node)
    (holds : marked other = true) :
    other = found ∨ other ∈ ancestry.lineage found := by
  induction node using ancestry.induct with
  | root node root => simp [lineage_of_root root] at above
  | child node parent child inductionHypothesis =>
      rw [nearest_of_parent child fails] at near
      rw [lineage_of_parent child] at above
      cases shown : marked parent with
      | true =>
          rw [nearest_of_marked shown, Option.some.injEq] at near
          subst near
          exact List.mem_cons.mp above
      | false =>
          rcases List.mem_cons.mp above with rfl | above
          · rw [shown] at holds
            cases holds
          · exact inductionHypothesis near shown above

end Ancestry

end Data
end Mailcore

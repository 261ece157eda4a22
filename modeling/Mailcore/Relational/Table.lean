import Mathlib.Data.List.Pairwise
import Mathlib.Data.List.Sort

/-!
# Tables with generated keys

A table holds rows under distinct natural keys in ascending order, the way a
relational store keeps rows whose key it generates itself and never reuses.
Statements are whole-table operations: an update sets every row that matches a
filter, a delete removes them, an insert takes the next key.  What a statement
does is said once per statement by what `find?` returns afterwards.
-/

namespace Mailcore
namespace Relational

/-- Rows that carry their own key. -/
class Keyed (ρ : Type) where
  /-- The generated key of a row. -/
  key : ρ → Nat

/-- A table whose keys are generated in ascending order and never reused. -/
structure Table (ρ : Type) [Keyed ρ] where
  /-- The stored rows. -/
  rows : List ρ
  /-- The largest key generated so far, also when its row is gone. -/
  last : Nat
  /-- Keys ascend, so no two rows share one. -/
  ascending : rows.Pairwise fun left right => Keyed.key left < Keyed.key right
  /-- No row has a key that was not generated yet. -/
  bounded : ∀ row ∈ rows, Keyed.key row ≤ last

namespace Table

variable {ρ : Type} [Keyed ρ]

/-- The table before any insert. -/
def empty : Table ρ where
  rows := []
  last := 0
  ascending := .nil
  bounded := by simp

/-- The row under a key. -/
def find? (table : Table ρ) (key : Nat) : Option ρ :=
  table.rows.find? fun row => Keyed.key row = key

/-- The rows that match a filter, in key order. -/
def select (table : Table ρ) (filter : ρ → Bool) : List ρ :=
  table.rows.filter filter

/-- How many rows match a filter: what an update or delete reports. -/
def count (table : Table ρ) (filter : ρ → Bool) : Nat :=
  table.rows.countP filter

/-- Set every row that matches the filter. -/
def update (table : Table ρ) (filter : ρ → Bool) (set : ρ → ρ)
    (keeps : ∀ row, Keyed.key (set row) = Keyed.key row := by
      intro row; exact Eq.trans rfl rfl) : Table ρ where
  rows := table.rows.map fun row => if filter row then set row else row
  last := table.last
  ascending := by
    rw [List.pairwise_map]
    refine table.ascending.imp ?_
    intro left right less
    split <;> split <;> simpa only [keeps] using less
  bounded := by
    intro row member
    obtain ⟨old, oldMember, rfl⟩ := List.mem_map.mp member
    split
    · rw [keeps]
      exact table.bounded old oldMember
    · exact table.bounded old oldMember

/-- Remove every row that matches the filter. -/
def delete (table : Table ρ) (filter : ρ → Bool) : Table ρ where
  rows := table.rows.filter fun row => !filter row
  last := table.last
  ascending := table.ascending.filter _
  bounded := by
    intro row member
    exact table.bounded row (List.mem_of_mem_filter member)

/-- Add the row made for the next key. -/
def insert (table : Table ρ) (make : Nat → ρ)
    (keyed : ∀ key, Keyed.key (make key) = key := by
      intro key; exact Eq.trans rfl rfl) : Table ρ where
  rows := table.rows ++ [make (table.last + 1)]
  last := table.last + 1
  ascending := by
    rw [List.pairwise_append]
    refine ⟨table.ascending, List.pairwise_singleton _ _, ?_⟩
    intro row member other otherMember
    rw [List.mem_singleton] at otherMember
    subst otherMember
    rw [keyed]
    exact Nat.lt_succ_of_le (table.bounded row member)
  bounded := by
    intro row member
    rcases List.mem_append.mp member with old | new
    · exact Nat.le_succ_of_le (table.bounded row old)
    · rw [List.mem_singleton] at new
      rw [new, keyed]

@[simp] theorem last_update
    (table : Table ρ) (filter : ρ → Bool) (set : ρ → ρ)
    (keeps : ∀ row, Keyed.key (set row) = Keyed.key row) :
    (table.update filter set keeps).last = table.last := rfl

@[simp] theorem last_delete
    (table : Table ρ) (filter : ρ → Bool) :
    (table.delete filter).last = table.last := rfl

@[simp] theorem last_insert
    (table : Table ρ) (make : Nat → ρ)
    (keyed : ∀ key, Keyed.key (make key) = key) :
    (table.insert make keyed).last = table.last + 1 := rfl

theorem mem_of_find?
    {table : Table ρ} {key : Nat} {row : ρ}
    (found : table.find? key = some row) :
    row ∈ table.rows ∧ Keyed.key row = key :=
  ⟨List.mem_of_find?_eq_some found, by
    simpa using List.find?_some found⟩

/-- Distinct keys: the row under its own key is the row itself. -/
theorem find?_of_mem
    {table : Table ρ} {row : ρ}
    (member : row ∈ table.rows) :
    table.find? (Keyed.key row) = some row := by
  unfold find?
  have ascending := table.ascending
  generalize table.rows = rows at member ascending
  induction rows with
  | nil => simp at member
  | cons first rest inductionHypothesis =>
      obtain ⟨below, restAscending⟩ := List.pairwise_cons.mp ascending
      rcases List.mem_cons.mp member with same | later
      · simp [same]
      · have different : Keyed.key first ≠ Keyed.key row :=
          Nat.ne_of_lt (below row later)
        rw [List.find?_cons_of_neg (by simpa using different)]
        exact inductionHypothesis later restAscending

theorem mem_iff_find?
    {table : Table ρ} {row : ρ} :
    row ∈ table.rows ↔ table.find? (Keyed.key row) = some row :=
  ⟨find?_of_mem, fun found => (mem_of_find? found).1⟩

theorem le_last_of_find?
    {table : Table ρ} {key : Nat} {row : ρ}
    (found : table.find? key = some row) : key ≤ table.last := by
  obtain ⟨member, rfl⟩ := mem_of_find? found
  exact table.bounded row member

/-- A key that was not generated yet has no row. -/
theorem find?_eq_none_of_last_lt
    {table : Table ρ} {key : Nat}
    (above : table.last < key) : table.find? key = none := by
  cases found : table.find? key with
  | none => rfl
  | some row =>
      have bounded := le_last_of_find? found
      omega

@[simp] theorem find?_update
    (table : Table ρ) (filter : ρ → Bool) (set : ρ → ρ)
    (keeps : ∀ row, Keyed.key (set row) = Keyed.key row) (key : Nat) :
    (table.update filter set keeps).find? key =
      (table.find? key).map fun row =>
        if filter row then set row else row := by
  unfold find? update
  rw [List.find?_map]
  congr 2
  funext row
  simp only [Function.comp_apply]
  split <;> simp only [keeps]

/-- An update leaves a row alone that does not match. -/
theorem find?_update_unmatched
    {table : Table ρ} {filter : ρ → Bool} {set : ρ → ρ} {key : Nat}
    (keeps : ∀ row, Keyed.key (set row) = Keyed.key row)
    (unmatched : ∀ row, table.find? key = some row → ¬filter row) :
    (table.update filter set keeps).find? key = table.find? key := by
  rw [find?_update]
  cases found : table.find? key with
  | none => rfl
  | some row => rw [Option.map_some, if_neg (unmatched row found)]

/-- An update sets a row that matches. -/
theorem find?_update_matched
    {table : Table ρ} {filter : ρ → Bool} {set : ρ → ρ} {key : Nat} {row : ρ}
    (keeps : ∀ row, Keyed.key (set row) = Keyed.key row)
    (found : table.find? key = some row)
    (matched : filter row) :
    (table.update filter set keeps).find? key = some (set row) := by
  rw [find?_update, found, Option.map_some, if_pos matched]

@[simp] theorem find?_delete
    (table : Table ρ) (filter : ρ → Bool) (key : Nat) :
    (table.delete filter).find? key =
      (table.find? key).filter fun row => !filter row := by
  cases found : table.find? key with
  | none =>
      rw [Option.filter_none]
      cases left : (table.delete filter).find? key with
      | none => rfl
      | some row =>
          obtain ⟨member, rfl⟩ := mem_of_find? left
          have stored := find?_of_mem (List.mem_of_mem_filter member)
          rw [stored] at found
          cases found
  | some row =>
      obtain ⟨member, rfl⟩ := mem_of_find? found
      by_cases removed : filter row
      · rw [Option.filter_some_neg (by simpa using removed)]
        cases left : (table.delete filter).find? (Keyed.key row) with
        | none => rfl
        | some other =>
            obtain ⟨otherMember, sameKey⟩ := mem_of_find? left
            have stored := find?_of_mem (List.mem_of_mem_filter otherMember)
            rw [sameKey, found] at stored
            cases stored
            have kept := List.of_mem_filter otherMember
            simp [removed] at kept
      · rw [Option.filter_some_pos (by simpa using removed)]
        have kept : row ∈ (table.delete filter).rows :=
          List.mem_filter.mpr ⟨member, by simpa using removed⟩
        exact find?_of_mem kept

@[simp] theorem find?_insert
    (table : Table ρ) (make : Nat → ρ)
    (keyed : ∀ key, Keyed.key (make key) = key) (key : Nat) :
    (table.insert make keyed).find? key =
      if key = table.last + 1 then some (make key) else table.find? key := by
  by_cases fresh : key = table.last + 1
  · subst fresh
    rw [if_pos rfl]
    have member : make (table.last + 1) ∈
        (table.insert make keyed).rows :=
      List.mem_append_right _ (List.mem_singleton_self _)
    simpa only [keyed] using find?_of_mem member
  · rw [if_neg fresh]
    unfold find? insert
    have different : ¬Keyed.key (make (table.last + 1)) = key := by
      rw [keyed]
      exact fun equal => fresh equal.symm
    rw [List.find?_append]
    simp [different]

/-- Selecting finds exactly the stored rows that match. -/
theorem mem_select
    {table : Table ρ} {filter : ρ → Bool} {row : ρ} :
    row ∈ table.select filter ↔
      table.find? (Keyed.key row) = some row ∧ filter row := by
  unfold select
  rw [List.mem_filter, mem_iff_find?]

/-- A filter that fixes the key counts at most one row. -/
theorem count_of_key
    {table : Table ρ} {filter : ρ → Bool} {key : Nat}
    (fixes : ∀ row, filter row → Keyed.key row = key) :
    table.count filter = if (table.find? key).any filter then 1 else 0 := by
  unfold count
  rw [List.countP_eq_length_filter]
  have matching : ∀ row ∈ table.rows.filter filter,
      table.find? key = some row ∧ filter row := by
    intro row member
    obtain ⟨stored, holds⟩ := List.mem_filter.mp member
    rw [← fixes row holds]
    exact ⟨find?_of_mem stored, holds⟩
  have ascending := table.ascending.filter filter
  cases selected : table.rows.filter filter with
  | nil =>
      rw [if_neg]
      · rfl
      · rw [Option.any_eq_true]
        rintro ⟨row, found, holds⟩
        have member : row ∈ table.rows.filter filter :=
          List.mem_filter.mpr ⟨(mem_of_find? found).1, holds⟩
        rw [selected] at member
        cases member
  | cons first rest =>
      rw [selected] at matching ascending
      obtain ⟨found, holds⟩ := matching first List.mem_cons_self
      rw [found, if_pos (by simpa using holds)]
      cases rest with
      | nil => rfl
      | cons second others =>
          have less := (List.pairwise_cons.mp ascending).1 second
            List.mem_cons_self
          have again := (matching second (by simp)).1
          rw [found] at again
          cases again
          exact absurd less (lt_irrefl _)

end Table

end Relational
end Mailcore

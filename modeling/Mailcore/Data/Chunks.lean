import Mathlib.Data.List.Basic

/-!
# Chunks of a list

A list cut into pieces of one size, the last of which may be shorter.
-/

namespace Mailcore
namespace Data

variable {α : Type}

/-- The elements that still fit the current piece, and the pieces after
it. -/
def chunksFrom (size : Nat) : Nat → List α → List α × List (List α)
  | _, [] => ([], [])
  | 0, head :: tail =>
      let (piece, pieces) := chunksFrom size (size - 1) tail
      ([], (head :: piece) :: pieces)
  | room + 1, head :: tail =>
      let (piece, pieces) := chunksFrom size room tail
      (head :: piece, pieces)

/-- The pieces of a list. -/
def chunks (size : Nat) (values : List α) : List (List α) :=
  (chunksFrom size 0 values).2

@[simp] theorem chunks_nil (size : Nat) :
    chunks size ([] : List α) = [] := rfl

theorem chunksFrom_zero_fst (size : Nat) (values : List α) :
    (chunksFrom size 0 values).1 = [] := by
  cases values <;> rfl

theorem chunksFrom_append (size room : Nat) (values : List α) :
    (chunksFrom size room values).1 ++
      (chunksFrom size room values).2.flatten = values := by
  induction values generalizing room with
  | nil => cases room <;> rfl
  | cons head tail inductionHypothesis =>
      cases room with
      | zero =>
          change (head :: (chunksFrom size (size - 1) tail).1) ++
            (chunksFrom size (size - 1) tail).2.flatten = head :: tail
          rw [List.cons_append, inductionHypothesis]
      | succ room =>
          change (head :: (chunksFrom size room tail).1) ++
            (chunksFrom size room tail).2.flatten = head :: tail
          rw [List.cons_append, inductionHypothesis]

/-- The pieces together are the list. -/
@[simp] theorem flatten_chunks (size : Nat) (values : List α) :
    (chunks size values).flatten = values := by
  have whole := chunksFrom_append size 0 values
  rwa [chunksFrom_zero_fst, List.nil_append] at whole

theorem mem_of_mem_chunk {size : Nat} {values piece : List α} {value : α}
    (member : piece ∈ chunks size values) (inside : value ∈ piece) :
    value ∈ values := by
  rw [← flatten_chunks size values]
  exact List.mem_flatten_of_mem member inside

theorem chunksFrom_ne_nil {size room : Nat} {values piece : List α}
    (member : piece ∈ (chunksFrom size room values).2) : piece ≠ [] := by
  induction values generalizing room with
  | nil => cases room <;> cases member
  | cons head tail inductionHypothesis =>
      cases room with
      | zero =>
          rcases List.mem_cons.mp member with rfl | later
          · exact List.cons_ne_nil _ _
          · exact inductionHypothesis later
      | succ room => exact inductionHypothesis member

/-- No piece is empty. -/
theorem ne_nil_of_mem_chunks {size : Nat} {values piece : List α}
    (member : piece ∈ chunks size values) : piece ≠ [] :=
  chunksFrom_ne_nil member

theorem chunksFrom_full (size : Nat) (piece rest : List α) :
    chunksFrom size piece.length (piece ++ rest) =
      (piece, chunks size rest) := by
  induction piece with
  | nil => exact Prod.ext (chunksFrom_zero_fst size rest) rfl
  | cons head tail inductionHypothesis =>
      rw [List.length_cons, List.cons_append, chunksFrom, inductionHypothesis]

theorem chunksFrom_short
    {size room : Nat}
    {values : List α}
    (short : values.length ≤ room) :
    chunksFrom size room values = (values, []) := by
  induction values generalizing room with
  | nil => cases room <;> rfl
  | cons head tail inductionHypothesis =>
      cases room with
      | zero => simp at short
      | succ room =>
          rw [chunksFrom, inductionHypothesis (by simpa using short)]

/-- A full piece is cut off. -/
theorem chunks_append
    {size : Nat}
    {piece : List α}
    (full : piece.length = size)
    (positive : 0 < size)
    (rest : List α) :
    chunks size (piece ++ rest) = piece :: chunks size rest := by
  cases piece with
  | nil => simp only [List.length_nil] at full; omega
  | cons head tail =>
      have room : size - 1 = tail.length := by
        rw [← full, List.length_cons]
        omega
      rw [chunks, List.cons_append, chunksFrom, room, chunksFrom_full]

/-- What fits one piece is one piece. -/
theorem chunks_short
    {size : Nat}
    {values : List α}
    (nonempty : values ≠ [])
    (short : values.length ≤ size) :
    chunks size values = [values] := by
  cases values with
  | nil => exact absurd rfl nonempty
  | cons head tail =>
      rw [List.length_cons] at short
      rw [chunks, chunksFrom, chunksFrom_short (by omega)]

/-- Induction on a list that is cut into pieces. -/
theorem chunks_induction
    {property : List α → Prop}
    (size : Nat)
    (positive : 0 < size)
    (empty : property [])
    (short : ∀ values, values ≠ [] → values.length < size → property values)
    (full : ∀ piece rest, piece.length = size → property rest →
      property (piece ++ rest))
    (values : List α) :
    property values := by
  induction length : values.length using Nat.strongRecOn
    generalizing values with
  | _ count inductionHypothesis =>
      by_cases fits : values.length < size
      · by_cases nonempty : values = []
        · exact nonempty ▸ empty
        · exact short values nonempty fits
      · rw [← List.take_append_drop size values]
        apply full
        · rw [List.length_take]
          omega
        · apply inductionHypothesis (values.drop size).length _ _ rfl
          rw [List.length_drop]
          omega

end Data
end Mailcore

import Mathlib.Data.List.Basic
import Mathlib.Data.List.Perm.Basic

/-!
# Classes of a list

The elements of a list that share a key, in their order.  Taking the first of a
class out of the list leaves every other class as it is.
-/

namespace Mailcore
namespace Data

variable {α β κ : Type} [DecidableEq κ]

/-- The elements with a key. -/
def withKey (keyOf : α → κ) (key : κ) (list : List α) : List α :=
  list.filter fun element => keyOf element = key

@[simp] theorem mem_withKey {keyOf : α → κ} {key : κ} {list : List α} {element : α} :
    element ∈ withKey keyOf key list ↔ element ∈ list ∧ keyOf element = key := by
  unfold withKey
  rw [List.mem_filter, decide_eq_true_eq]

theorem withKey_append (keyOf : α → κ) (key : κ) (first second : List α) :
    withKey keyOf key (first ++ second) =
      withKey keyOf key first ++ withKey keyOf key second :=
  List.filter_append _ _

theorem withKey_cons_same (keyOf : α → κ) (head : α) (tail : List α) :
    withKey keyOf (keyOf head) (head :: tail) =
      head :: withKey keyOf (keyOf head) tail :=
  List.filter_cons_of_pos (by simp)

theorem withKey_cons_other
    {keyOf : α → κ} {key : κ} {head : α} (other : keyOf head ≠ key) (tail : List α) :
    withKey keyOf key (head :: tail) = withKey keyOf key tail :=
  List.filter_cons_of_neg (by simpa using other)

/-- The first element with a key heads its class. -/
theorem find?_eq_head?_withKey (keyOf : α → κ) (key : κ) (list : List α) :
    list.find? (fun element => keyOf element = key) =
      (withKey keyOf key list).head? :=
  (List.head?_filter ..).symm

/-- Without the first element with a key its class has lost its head. -/
theorem withKey_eraseP_same (keyOf : α → κ) (key : κ) (list : List α) :
    withKey keyOf key (list.eraseP fun element => keyOf element = key) =
      (withKey keyOf key list).tail := by
  induction list with
  | nil => rfl
  | cons head tail inductionHypothesis =>
      by_cases same : keyOf head = key
      · subst same
        rw [List.eraseP_cons_of_pos (by simp), withKey_cons_same, List.tail_cons]
      · rw [List.eraseP_cons_of_neg (by simpa using same),
          withKey_cons_other same, withKey_cons_other same, inductionHypothesis]

/-- The other classes stay. -/
theorem withKey_eraseP_other
    {keyOf : α → κ} {key gone : κ} (different : gone ≠ key) (list : List α) :
    withKey keyOf key (list.eraseP fun element => keyOf element = gone) =
      withKey keyOf key list := by
  induction list with
  | nil => rfl
  | cons head tail inductionHypothesis =>
      by_cases same : keyOf head = gone
      · subst same
        rw [List.eraseP_cons_of_pos (by simp), withKey_cons_other different]
      · rw [List.eraseP_cons_of_neg (by simpa using same)]
        by_cases own : keyOf head = key
        · subst own
          rw [withKey_cons_same, withKey_cons_same, inductionHypothesis]
        · rw [withKey_cons_other own, withKey_cons_other own, inductionHypothesis]

/-- What keeps the keys maps class by class. -/
theorem withKey_map
    {keyOf : α → κ} {set : α → α} (keeps : ∀ element, keyOf (set element) = keyOf element)
    (key : κ) (list : List α) :
    withKey keyOf key (list.map set) = (withKey keyOf key list).map set := by
  unfold withKey
  rw [List.filter_map]
  congr 2
  funext element
  rw [Function.comp_apply, keeps]

/-- Classes of one length throughout: the keys are the same up to order. -/
theorem perm_keys_of_length
    {left : List α} {right : List β} {leftKey : α → κ} {rightKey : β → κ}
    (same : ∀ key, (withKey leftKey key left).length =
      (withKey rightKey key right).length) :
    (left.map leftKey).Perm (right.map rightKey) := by
  rw [List.perm_iff_count]
  intro key
  have counted : ∀ {γ : Type} (keyOf : γ → κ) (list : List γ),
      (list.map keyOf).count key = (withKey keyOf key list).length := by
    intro γ keyOf list
    rw [List.count, List.countP_map, List.countP_eq_length_filter]
    rfl
  rw [counted, counted, same]

end Data
end Mailcore

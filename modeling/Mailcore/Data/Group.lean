import Mathlib.Data.List.Induction
import Mathlib.Data.List.Nodup

/-!
# Grouping

A list cut into groups of one key each, in the order the keys first appear, and
the first element of every group alone.
-/

namespace Mailcore
namespace Data

variable {α β : Type} [DecidableEq β]

/-- Append a value to the group of its key, or begin a new group. -/
def addToGroup (key : α → β) (value : α) : List (List α) → List (List α)
  | [] => [[value]]
  | group :: rest =>
      if group.head?.map key = some (key value) then
        (group ++ [value]) :: rest
      else
        group :: addToGroup key value rest

def groupBy (key : α → β) (values : List α) : List (List α) :=
  values.foldl (fun groups value => addToGroup key value groups) []

theorem head?_filter_key
    {key : α → β}
    {values : List α}
    {wanted : β}
    (present : wanted ∈ values.map key) :
    (values.filter fun value => key value = wanted).head?.map key =
      some wanted := by
  obtain ⟨value, member, same⟩ := List.mem_map.mp present
  cases filtered : values.filter fun value => key value = wanted with
  | nil =>
      have inside : value ∈ values.filter fun value => key value = wanted := by
        rw [List.mem_filter]
        exact ⟨member, by simpa using same⟩
      rw [filtered] at inside
      cases inside
  | cons head tail =>
      have inside : head ∈ values.filter fun value => key value = wanted := by
        rw [filtered]
        exact List.mem_cons_self
      have headKey := (List.mem_filter.mp inside).2
      simpa using headKey

/-- One more value, with the groups given by their keys. -/
theorem addToGroup_map
    {key : α → β}
    {values : List α}
    {keys : List β}
    (value : α)
    (distinct : keys.Nodup)
    (present : ∀ wanted ∈ keys, wanted ∈ values.map key) :
    addToGroup key value
        (keys.map fun wanted => values.filter fun other => key other = wanted) =
      if key value ∈ keys then
        keys.map fun wanted =>
          (values ++ [value]).filter fun other => key other = wanted
      else
        (keys.map fun wanted => values.filter fun other => key other = wanted) ++
          [[value]] := by
  induction keys with
  | nil => rfl
  | cons first rest inductionHypothesis =>
      obtain ⟨fresh, restDistinct⟩ := List.nodup_cons.mp distinct
      have head := head?_filter_key (present first List.mem_cons_self)
      rw [List.map_cons, addToGroup, head]
      by_cases same : first = key value
      · have others : (rest.map fun wanted =>
            (values ++ [value]).filter fun other => key other = wanted) =
              rest.map fun wanted =>
                values.filter fun other => key other = wanted := by
          apply List.map_congr_left
          intro wanted member
          have differs : key value ≠ wanted := by
            rintro rfl
            exact fresh (same ▸ member)
          simp [List.filter_append, differs]
        rw [if_pos (congrArg some same), if_pos (same ▸ List.mem_cons_self),
          List.map_cons, others]
        simp [List.filter_append, same]
      · have differs : key value ≠ first := fun equal => same equal.symm
        rw [if_neg (by simpa using same),
          inductionHypothesis restDistinct fun wanted member =>
            present wanted (List.mem_cons_of_mem _ member)]
        by_cases known : key value ∈ rest
        · rw [if_pos known, if_pos (List.mem_cons_of_mem _ known),
            List.map_cons]
          simp [List.filter_append, differs]
        · rw [if_neg known, if_neg (by simp [differs, known])]
          rfl

/-- The groups are the values of each key, one group a key. -/
theorem groupBy_eq (key : α → β) (values : List α) :
    ∃ keys : List β, keys.Nodup ∧
      (∀ wanted, wanted ∈ keys ↔ wanted ∈ values.map key) ∧
      groupBy key values =
        keys.map fun wanted => values.filter fun value => key value = wanted := by
  induction values using List.reverseRecOn with
  | nil => exact ⟨[], List.nodup_nil, by simp, rfl⟩
  | append_singleton values value inductionHypothesis =>
      obtain ⟨keys, distinct, present, groups⟩ := inductionHypothesis
      have step : groupBy key (values ++ [value]) =
          addToGroup key value (groupBy key values) := by
        rw [groupBy, List.foldl_append]
        rfl
      rw [step, groups, addToGroup_map value distinct
        fun wanted member => (present wanted).mp member]
      by_cases known : key value ∈ keys
      · refine ⟨keys, distinct, ?_, if_pos known⟩
        intro wanted
        rw [present wanted, List.map_append, List.mem_append]
        constructor
        · exact Or.inl
        · rintro (earlier | last)
          · exact earlier
          · rw [List.map_singleton, List.mem_singleton] at last
            exact last ▸ (present _).mp known
      · refine ⟨keys ++ [key value], ?_, ?_, ?_⟩
        · rw [List.nodup_append]
          refine ⟨distinct, List.nodup_singleton _, ?_⟩
          intro wanted member other last same
          rw [List.mem_singleton] at last
          exact known (last ▸ same ▸ member)
        · intro wanted
          rw [List.mem_append, present wanted, List.map_append,
            List.mem_append, List.map_singleton]
        · have unknown : ∀ other ∈ values, key other ≠ key value := by
            intro other member same
            apply known
            rw [present, ← same]
            exact List.mem_map_of_mem member
          have others : (keys.map fun wanted =>
              (values ++ [value]).filter fun other => key other = wanted) =
                keys.map fun wanted =>
                  values.filter fun other => key other = wanted := by
            apply List.map_congr_left
            intro wanted member
            have differs : key value ≠ wanted := by
              rintro rfl
              exact known member
            simp [List.filter_append, differs]
          have last : (values ++ [value]).filter
              (fun other => key other = key value) = [value] := by
            rw [List.filter_append, List.filter_eq_nil_iff.mpr]
            · simp
            · intro other member
              simpa using unknown other member
          rw [if_neg known, List.map_append, others, List.map_singleton, last]

end Data
end Mailcore

namespace Mailcore
namespace Data

/-! ## The first of each key -/

section Once

variable {α κ : Type} [DecidableEq κ] {key : α → κ}

/-- The elements whose key was not met before. -/
def once (key : α → κ) (seen : List κ) : List α → List α
  | [] => []
  | item :: items =>
      if key item ∈ seen then once key seen items
      else item :: once key (seen ++ [key item]) items

theorem once_cons_of_mem {seen : List κ} {item : α} (met : key item ∈ seen) (items : List α) :
    once key seen (item :: items) = once key seen items := by
  rw [once, if_pos met]

theorem once_cons_of_notMem {seen : List κ} {item : α} (fresh : key item ∉ seen)
    (items : List α) :
    once key seen (item :: items) = item :: once key (seen ++ [key item]) items := by
  rw [once, if_neg fresh]

theorem once_sublist (key : α → κ) (seen : List κ) (items : List α) :
    (once key seen items).Sublist items := by
  induction items generalizing seen with
  | nil => exact List.Sublist.refl _
  | cons item items inductionHypothesis =>
      rw [once]
      split_ifs
      · exact (inductionHypothesis seen).cons item
      · exact (inductionHypothesis _).cons_cons item

theorem once_append (seen : List κ) (first second : List α) :
    once key seen (first ++ second) =
      once key seen first ++ once key (seen ++ (once key seen first).map key) second := by
  induction first generalizing seen with
  | nil => rw [List.nil_append, once, List.map_nil, List.append_nil, List.nil_append]
  | cons item first inductionHypothesis =>
      rw [List.cons_append]
      by_cases met : key item ∈ seen
      · rw [once_cons_of_mem met, once_cons_of_mem met, inductionHypothesis]
      · rw [once_cons_of_notMem met, once_cons_of_notMem met, inductionHypothesis, List.map_cons,
          List.cons_append, List.append_assoc, List.singleton_append]

/-- Every key stands there that was not met before. -/
theorem mem_keys_once {seen : List κ} {items : List α} {wanted : κ} :
    wanted ∈ (once key seen items).map key ↔ wanted ∈ items.map key ∧ wanted ∉ seen := by
  induction items generalizing seen with
  | nil => simp [once]
  | cons item items inductionHypothesis =>
      by_cases met : key item ∈ seen
      · rw [once_cons_of_mem met, inductionHypothesis, List.map_cons, List.mem_cons]
        constructor
        · rintro ⟨later, unmet⟩
          exact ⟨.inr later, unmet⟩
        · rintro ⟨rfl | later, unmet⟩
          · exact absurd met unmet
          · exact ⟨later, unmet⟩
      · rw [once_cons_of_notMem met, List.map_cons, List.mem_cons, inductionHypothesis,
          List.map_cons, List.mem_cons, List.mem_append, List.mem_singleton, not_or]
        constructor
        · rintro (rfl | ⟨later, unmet, -⟩)
          · exact ⟨.inl rfl, met⟩
          · exact ⟨.inr later, unmet⟩
        · rintro ⟨rfl | later, unmet⟩
          · exact .inl rfl
          · by_cases same : wanted = key item
            · exact .inl same
            · exact .inr ⟨later, unmet, same⟩

/-- And it stands there once. -/
theorem nodup_keys_once (seen : List κ) (items : List α) :
    ((once key seen items).map key).Nodup := by
  induction items generalizing seen with
  | nil => exact List.nodup_nil
  | cons item items inductionHypothesis =>
      by_cases met : key item ∈ seen
      · rw [once_cons_of_mem met]
        exact inductionHypothesis seen
      · rw [once_cons_of_notMem met, List.map_cons, List.nodup_cons, mem_keys_once]
        refine ⟨fun again => again.2 ?_, inductionHypothesis _⟩
        exact List.mem_append_right _ (List.mem_singleton_self _)

/-- Where no key comes twice, all are kept. -/
theorem once_of_nodup {seen : List κ} {items : List α} (distinct : (items.map key).Nodup)
    (fresh : ∀ item ∈ items, key item ∉ seen) : once key seen items = items := by
  induction items generalizing seen with
  | nil => rfl
  | cons item items inductionHypothesis =>
      rw [List.map_cons, List.nodup_cons] at distinct
      obtain ⟨here, later⟩ := List.forall_mem_cons.mp fresh
      rw [once_cons_of_notMem here, inductionHypothesis distinct.2 fun other member => ?_]
      rw [List.mem_append, List.mem_singleton, not_or]
      exact ⟨later other member, fun same => distinct.1 (same ▸ List.mem_map_of_mem member)⟩

/-- What is kept is the first of its key. -/
theorem mem_once_iff {seen : List κ} {items : List α} {item : α} :
    item ∈ once key seen items ↔ ∃ before after, items = before ++ item :: after ∧
      key item ∉ seen ∧ key item ∉ before.map key := by
  induction items generalizing seen with
  | nil => simp [once]
  | cons head items inductionHypothesis =>
      constructor
      · intro member
        by_cases met : key head ∈ seen
        · rw [once_cons_of_mem met, inductionHypothesis] at member
          obtain ⟨before, after, rfl, unmet, first⟩ := member
          refine ⟨head :: before, after, rfl, unmet, ?_⟩
          rw [List.map_cons, List.mem_cons, not_or]
          exact ⟨fun same => unmet (same ▸ met), first⟩
        · rw [once_cons_of_notMem met, List.mem_cons, inductionHypothesis] at member
          rcases member with rfl | ⟨before, after, rfl, unmet, first⟩
          · exact ⟨[], items, rfl, met, List.not_mem_nil⟩
          · rw [List.mem_append, List.mem_singleton, not_or] at unmet
            refine ⟨head :: before, after, rfl, unmet.1, ?_⟩
            rw [List.map_cons, List.mem_cons, not_or]
            exact ⟨unmet.2, first⟩
      · rintro ⟨before, after, shape, unmet, first⟩
        cases before with
        | nil =>
            obtain ⟨rfl, rfl⟩ := List.cons.inj shape
            rw [once_cons_of_notMem unmet]
            exact List.mem_cons_self
        | cons other before =>
            obtain ⟨rfl, rfl⟩ := List.cons.inj shape
            rw [List.map_cons, List.mem_cons, not_or] at first
            by_cases met : key head ∈ seen
            · rw [once_cons_of_mem met, inductionHypothesis]
              exact ⟨before, after, rfl, unmet, first.2⟩
            · rw [once_cons_of_notMem met, List.mem_cons, inductionHypothesis]
              refine .inr ⟨before, after, rfl, ?_, first.2⟩
              rw [List.mem_append, List.mem_singleton, not_or]
              exact ⟨unmet, first.1⟩

end Once

end Data
end Mailcore

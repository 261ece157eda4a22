import Mathlib.Algebra.Group.Int.Even
import Mathlib.Algebra.Ring.Int.Parity
import Mathlib.Order.Bounds.Basic
import Mathlib.Data.Int.Order.Basic

/-!
# Periodic windows

A window on the line of integers opens and closes once in every period.  Its
marks are the readings at which it does; how many of them lie between two
readings decides whether both see the window alike.
-/

namespace Mailcore
namespace Data
namespace Window

/-- A phase of the period lies between the opening and the closing phase; a
window that opens later than it closes wraps around. -/
def Within (opens closes phase : Int) : Prop :=
  if opens ≤ closes then opens ≤ phase ∧ phase < closes
  else opens ≤ phase ∨ phase < closes

instance (opens closes phase : Int) : Decidable (Within opens closes phase) := by
  unfold Within
  infer_instance

variable (period opens closes : Int)

/-- The window opens or closes at a reading. -/
def IsMark (reading : Int) : Prop :=
  reading % period = opens ∨ reading % period = closes

/-- How many marks lie at or before a reading, up to a constant. -/
def turns (reading : Int) : Int :=
  (reading - opens) / period + (reading - closes) / period

/-- A reading is the first mark after another. -/
def IsNext (reading mark : Int) : Prop :=
  IsLeast {mark | reading < mark ∧ IsMark period opens closes mark} mark

variable {period opens closes}

theorem IsNext.unique
    {reading first second : Int}
    (firstNext : IsNext period opens closes reading first)
    (secondNext : IsNext period opens closes reading second) :
    first = second :=
  IsLeast.unique firstNext secondNext

/-- The last reading of a phase, if it does not lie before an earlier
reading's own, falls between the two. -/
theorem exists_phase_between
    {phase earlier later : Int}
    (positive : 0 < period)
    (range : 0 ≤ phase ∧ phase < period)
    (less : (earlier - phase) / period < (later - phase) / period) :
    ∃ mark, earlier < mark ∧ mark ≤ later ∧ mark % period = phase := by
  refine ⟨phase + period * ((later - phase) / period), ?_, ?_, ?_⟩
  · have := Int.lt_mul_of_ediv_lt positive less
    rw [mul_comm] at this
    omega
  · have := Int.mul_ediv_self_le (x := later - phase) (ne_of_gt positive)
    omega
  · rw [Int.add_mul_emod_self_left]
    exact Int.emod_eq_of_lt range.1 range.2

/-- Before the next mark nothing is turned. -/
theorem turns_eq_of_lt_next
    (positive : 0 < period)
    (opensRange : 0 ≤ opens ∧ opens < period)
    (closesRange : 0 ≤ closes ∧ closes < period)
    {earlier later mark : Int}
    (next : IsNext period opens closes earlier mark)
    (le : earlier ≤ later)
    (before : later < mark) :
    turns period opens closes later = turns period opens closes earlier := by
  have noMark : ∀ reading, earlier < reading → reading ≤ later →
      ¬IsMark period opens closes reading := by
    intro reading after notAfter isMark
    have := next.2 ⟨after, isMark⟩
    omega
  have opening : (later - opens) / period = (earlier - opens) / period := by
    apply le_antisymm _ (Int.ediv_le_ediv positive (Int.sub_le_sub_right le opens))
    by_contra more
    obtain ⟨reading, after, notAfter, phase⟩ :=
      exists_phase_between positive opensRange (not_le.mp more)
    exact noMark reading after notAfter (Or.inl phase)
  have closing : (later - closes) / period = (earlier - closes) / period := by
    apply le_antisymm _ (Int.ediv_le_ediv positive (Int.sub_le_sub_right le closes))
    by_contra more
    obtain ⟨reading, after, notAfter, phase⟩ :=
      exists_phase_between positive closesRange (not_le.mp more)
    exact noMark reading after notAfter (Or.inr phase)
  rw [turns, turns, opening, closing]

/-- A phase not yet reached in its period counts one period less. -/
theorem sub_ediv
    (positive : 0 < period)
    {phase : Int}
    (range : 0 ≤ phase ∧ phase < period)
    (reading : Int) :
    (reading - phase) / period =
      reading / period - if reading % period < phase then 1 else 0 := by
  have low := Int.emod_nonneg reading (ne_of_gt positive)
  have high := Int.emod_lt_of_pos reading positive
  have split := Int.mul_ediv_add_emod reading period
  split_ifs with before
  · rw [Int.ediv_eq_iff_of_pos positive, mul_comm, mul_sub, mul_one]
    omega
  · rw [sub_zero, Int.ediv_eq_iff_of_pos positive, mul_comm]
    omega

/-- The window is open after an odd number of turns, and after an even one
when it wraps around. -/
theorem within_iff_odd_turns
    (positive : 0 < period)
    (opensRange : 0 ≤ opens ∧ opens < period)
    (closesRange : 0 ≤ closes ∧ closes < period)
    (reading : Int) :
    Within opens closes (reading % period) ↔
      (Odd (turns period opens closes reading) ↔ opens ≤ closes) := by
  rw [turns, sub_ediv positive opensRange, sub_ediv positive closesRange,
    Int.odd_iff]
  unfold Within
  split_ifs <;> omega

/-- Two readings see the window alike when an even number of marks separates
them. -/
theorem within_congr_iff
    (positive : 0 < period)
    (opensRange : 0 ≤ opens ∧ opens < period)
    (closesRange : 0 ≤ closes ∧ closes < period)
    (first second : Int) :
    (Within opens closes (first % period) ↔
        Within opens closes (second % period)) ↔
      Even (turns period opens closes first - turns period opens closes second) := by
  rw [within_iff_odd_turns positive opensRange closesRange first,
    within_iff_odd_turns positive opensRange closesRange second,
    Int.even_sub, ← Int.not_odd_iff_even, ← Int.not_odd_iff_even]
  tauto

/-- The marks of the period a reading lies in and of the next one. -/
def candidates (period opens closes reading : Int) : List Int :=
  [reading / period * period + opens, reading / period * period + closes,
    (reading / period + 1) * period + opens,
    (reading / period + 1) * period + closes]

theorem mul_add_emod
    {phase : Int}
    (range : 0 ≤ phase ∧ phase < period)
    (count : Int) :
    (count * period + phase) % period = phase := by
  rw [add_comm, mul_comm, Int.add_mul_emod_self_left]
  exact Int.emod_eq_of_lt range.1 range.2

theorem isMark_of_mem_candidates
    (opensRange : 0 ≤ opens ∧ opens < period)
    (closesRange : 0 ≤ closes ∧ closes < period)
    {reading mark : Int}
    (member : mark ∈ candidates period opens closes reading) :
    IsMark period opens closes mark := by
  simp only [candidates, List.mem_cons, List.not_mem_nil, or_false] at member
  rcases member with rfl | rfl | rfl | rfl
  · exact Or.inl (mul_add_emod opensRange _)
  · exact Or.inr (mul_add_emod closesRange _)
  · exact Or.inl (mul_add_emod opensRange _)
  · exact Or.inr (mul_add_emod closesRange _)

/-- A later reading of a phase has a candidate of that phase at or before it,
still after the reading. -/
theorem exists_candidate
    (positive : 0 < period)
    {phase reading mark : Int}
    (range : 0 ≤ phase ∧ phase < period)
    (after : reading < mark)
    (isPhase : mark % period = phase) :
    ∃ count, (count = reading / period ∨ count = reading / period + 1) ∧
      reading < count * period + phase ∧ count * period + phase ≤ mark := by
  have markSplit := Int.mul_ediv_add_emod mark period
  have readingSplit := Int.mul_ediv_add_emod reading period
  have readingHigh := Int.emod_lt_of_pos reading positive
  have order := Int.ediv_le_ediv positive (le_of_lt after)
  rcases lt_or_eq_of_le order with later | same
  · refine ⟨reading / period + 1, Or.inr rfl, ?_, ?_⟩
    · rw [add_mul, one_mul, mul_comm]
      omega
    · have := Int.mul_le_mul_of_nonneg_left (Int.add_one_le_of_lt later)
        (le_of_lt positive)
      rw [mul_comm]
      omega
  · refine ⟨reading / period, Or.inl rfl, ?_, ?_⟩
    all_goals
      rw [mul_comm, same]
      omega

/-- The least candidate after a reading is its next mark. -/
theorem isNext_iff_isLeast_candidates
    (positive : 0 < period)
    (opensRange : 0 ≤ opens ∧ opens < period)
    (closesRange : 0 ≤ closes ∧ closes < period)
    {reading mark : Int} :
    IsNext period opens closes reading mark ↔
      (mark ∈ candidates period opens closes reading ∧ reading < mark) ∧
        ∀ other ∈ candidates period opens closes reading,
          reading < other → mark ≤ other := by
  have reach : ∀ other, reading < other → IsMark period opens closes other →
      ∃ candidate ∈ candidates period opens closes reading,
        reading < candidate ∧ candidate ≤ other := by
    intro other after isMark
    rcases isMark with phase | phase
    · obtain ⟨count, which, beyond, le⟩ :=
        exists_candidate positive opensRange after phase
      refine ⟨_, ?_, beyond, le⟩
      rcases which with rfl | rfl <;> simp [candidates]
    · obtain ⟨count, which, beyond, le⟩ :=
        exists_candidate positive closesRange after phase
      refine ⟨_, ?_, beyond, le⟩
      rcases which with rfl | rfl <;> simp [candidates]
  constructor
  · rintro ⟨⟨after, isMark⟩, least⟩
    obtain ⟨candidate, member, beyond, le⟩ := reach mark after isMark
    have same : candidate = mark := le_antisymm le
      (least ⟨beyond, isMark_of_mem_candidates opensRange closesRange member⟩)
    refine ⟨⟨same ▸ member, after⟩, ?_⟩
    intro other otherMember otherAfter
    exact least
      ⟨otherAfter, isMark_of_mem_candidates opensRange closesRange otherMember⟩
  · rintro ⟨⟨member, after⟩, least⟩
    refine ⟨⟨after, isMark_of_mem_candidates opensRange closesRange member⟩, ?_⟩
    rintro other ⟨otherAfter, isMark⟩
    obtain ⟨candidate, candidateMember, beyond, le⟩ := reach other otherAfter isMark
    exact (least candidate candidateMember beyond).trans le

end Window
end Data
end Mailcore

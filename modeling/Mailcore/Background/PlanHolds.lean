import Mailcore.Background.Schedule
import Mathlib.Data.Set.Finite.Lemmas
import Mathlib.Order.Interval.Set.Basic
import Mathlib.Data.Int.Interval

/-!
# How long a plan holds

A plan holds until it says so when the wall clock runs on between the instant
it was made and the one it names.  The plan reads the next start or end of
every window off the wall clock, so a clock that is set meanwhile can show it
before its time, or pass over it.
-/

namespace Mailcore
namespace Background

open Data
open Store (Instant nanosPerSecond seconds wholeSecond seconds_le_iff)

/-- The plans of two instants decide alike, account for account. -/
structure SameDecisions
    (db : PlanDb)
    (zone : Zone)
    (first second : Instant) : Prop where
  push : (planAt db zone first).push = (planAt db zone second).push
  pollMinutes :
    (planAt db zone first).pollMinutes = (planAt db zone second).pollMinutes
  pollScheduler :
    (planAt db zone first).pollScheduler = (planAt db zone second).pollScheduler
  quietAccounts :
    (planAt db zone first).quietAccounts = (planAt db zone second).quietAccounts
  quiet :
    (scheduled db zone first).map (fun entry => (entry.account, entry.quiet)) =
      (scheduled db zone second).map fun entry => (entry.account, entry.quiet)

/-- An instant lies before the one a plan names, if it names one. -/
def BeforeReplan (plan : BackgroundPlan) (time : Instant) : Prop :=
  ∀ replan, plan.replanAt = some replan → time < seconds replan

/-- The plan made at an instant lies before its own end and is the plan of
every instant up to there. -/
def PlanHolds (db : PlanDb) (zone : Zone) (now : Instant) : Prop :=
  BeforeReplan (planAt db zone now) now ∧
    ∀ later, now ≤ later → BeforeReplan (planAt db zone now) later →
      SameDecisions db zone now later

/-- An instant lies before the next start or end of every window comes. -/
def BeforeBoundaries
    (zone : Zone)
    (windows : List QuietHours)
    (now time : Instant) : Prop :=
  ∀ quiet ∈ windows, ∀ boundary comes,
    quiet.IsNextBoundary (zone.wall now) boundary →
      Comes zone boundary comes → time < comes

/-- Every next start or end is still to come, and until the first of them the
wall clock stays an even number of starts and ends of each window from where
it stood. -/
def ClockRunsOn
    (zone : Zone)
    (windows : List QuietHours)
    (now : Instant) : Prop :=
  BeforeBoundaries zone windows now now ∧
    ∀ later, now ≤ later → BeforeBoundaries zone windows now later →
      ∀ quiet ∈ windows,
        Even (quiet.turns (zone.wall now) - quiet.turns (zone.wall later))

section
variable {db : PlanDb} {zone : Zone} {now later : Instant}

theorem quietWindows_nonempty
    {quiet : QuietHours}
    (member : quiet ∈ quietWindows db) :
    quiet.start ≠ quiet.stop := by
  obtain ⟨account, -, found⟩ := List.mem_filterMap.mp member
  exact AccountSettings.quietHours_nonempty found

/-- A start or end of quiet hours is a whole second of the wall clock. -/
theorem boundary_whole
    {quiet : QuietHours} {reading boundary : Int}
    (member : quiet ∈ quietWindows db)
    (next : quiet.IsNextBoundary reading boundary) :
    seconds (wholeSecond boundary) = boundary := by
  obtain ⟨account, -, found⟩ := List.mem_filterMap.mp member
  obtain ⟨startWhole, stopWhole⟩ := AccountSettings.quietHours_whole found
  have mark := next.1.2
  unfold Window.IsMark nanosPerDay at mark
  unfold seconds wholeSecond nanosPerSecond at *
  omega

theorem nextChange_whole
    {quiet : QuietHours} {time : Instant}
    (member : quiet ∈ quietWindows db)
    (change : quiet.nextChange zone now = some time) :
    seconds (wholeSecond time) = time := by
  obtain ⟨boundary, next, comes⟩ := (QuietHours.nextChange_eq_some_iff
    (quietWindows_nonempty member)).mp change
  rw [comes_iff.mp comes]
  exact seconds_wholeSecond_resolve (boundary_whole member next)

/-- The plan names the first of the instants at which a window changes. -/
theorem beforeReplan_iff_nextChange {time : Instant} :
    BeforeReplan (planAt db zone now) time ↔
      ∀ quiet ∈ quietWindows db, ∀ change,
        quiet.nextChange zone now = some change → time < change := by
  unfold BeforeReplan planAt
  dsimp only
  cases least : ((scheduled db zone now).filterMap (·.changeAt)).min? with
  | none =>
      rw [List.min?_eq_none_iff] at least
      constructor
      · intro _ quiet member change found
        have changes := mem_changeAt.mpr ⟨quiet, member, found⟩
        rw [least] at changes
        exact absurd changes List.not_mem_nil
      · intro _ replan missing
        cases missing
  | some first =>
      obtain ⟨member, least⟩ := List.min?_eq_some_iff.mp least
      obtain ⟨owner, ownerMember, ownerChange⟩ := mem_changeAt.mp member
      have whole := nextChange_whole ownerMember ownerChange
      constructor
      · intro before quiet quietMember change found
        have early := before _ rfl
        rw [whole] at early
        exact early.trans_le (least _ (mem_changeAt.mpr ⟨quiet, quietMember, found⟩))
      · intro before replan named
        cases named
        rw [whole]
        exact before owner ownerMember first ownerChange

theorem beforeReplan_iff {time : Instant} :
    BeforeReplan (planAt db zone now) time ↔
      BeforeBoundaries zone (quietWindows db) now time := by
  rw [beforeReplan_iff_nextChange]
  refine forall₂_congr fun quiet member => ?_
  constructor
  · intro before boundary comes next come
    exact before comes ((QuietHours.nextChange_eq_some_iff
      (quietWindows_nonempty member)).mpr ⟨boundary, next, come⟩)
  · intro before change found
    obtain ⟨boundary, next, comes⟩ := (QuietHours.nextChange_eq_some_iff
      (quietWindows_nonempty member)).mp found
    exact before boundary change next comes

/-- The decisions about an account, apart from when they change next. -/
def Scheduled.decision (entry : Scheduled) : Int × Int × Bool × Bool :=
  (entry.account, entry.minutes, entry.push, entry.quiet)

/-- Besides the settings, an account's entry depends on whether it is quiet. -/
theorem decision_eq_iff {account : Int} :
    (scheduledAs db zone now account).decision =
        (scheduledAs db zone later account).decision ↔
      ∀ quiet, AccountSettings.quietHours db account = some quiet →
        quiet.containsAt zone now = quiet.containsAt zone later := by
  simp only [Scheduled.decision, scheduledAs, Prod.mk.injEq, true_and]
  cases AccountSettings.quietHours db account with
  | none => simp
  | some quiet => simp

theorem decisions_eq_iff :
    (scheduled db zone now).map Scheduled.decision =
        (scheduled db zone later).map Scheduled.decision ↔
      ∀ quiet ∈ quietWindows db,
        quiet.containsAt zone now = quiet.containsAt zone later := by
  rw [scheduled_eq_map, scheduled_eq_map, List.map_map, List.map_map,
    List.map_inj_left]
  simp only [Function.comp_apply, decision_eq_iff, quietWindows, List.mem_filterMap]
  grind

/-- Everything a plan decides now is read off the entries' decisions. -/
theorem sameDecisions_of_decisions_eq
    (same : (scheduled db zone now).map Scheduled.decision =
      (scheduled db zone later).map Scheduled.decision) :
    SameDecisions db zone now later := by
  have readOff : ∀ {β : Type} (read : List (Int × Int × Bool × Bool) → β),
      read ((scheduled db zone now).map Scheduled.decision) =
        read ((scheduled db zone later).map Scheduled.decision) :=
    fun read => congrArg read same
  refine ⟨?_, ?_, rfl, ?_, ?_⟩
  · have pushes := readOff fun all =>
      (all.filter fun entry => !entry.2.2.2).any (·.2.2.1)
    simp only [List.filter_map, List.any_map] at pushes
    exact pushes
  · have polls := readOff fun all => ((((all.filter fun entry => !entry.2.2.2).filter
      fun entry => !entry.2.2.1).map (·.2.1)).min?).getD 0
    simp only [List.filter_map, List.map_map] at polls
    exact polls
  · have quiet := readOff fun all => (all.filter (·.2.2.2)).length
    simp only [List.filter_map, List.length_map] at quiet
    exact quiet
  · have quiet := readOff fun all => all.map fun entry => (entry.1, entry.2.2.2)
    simp only [List.map_map] at quiet
    exact quiet

/-- Plans decide alike when every account's quiet hours do. -/
theorem sameDecisions_iff :
    SameDecisions db zone now later ↔
      ∀ quiet ∈ quietWindows db,
        quiet.containsAt zone now = quiet.containsAt zone later := by
  constructor
  · intro same
    have quiet := same.quiet
    rw [scheduled_eq_map, scheduled_eq_map, List.map_map, List.map_map,
      List.map_inj_left] at quiet
    refine decisions_eq_iff.mp ?_
    rw [scheduled_eq_map, scheduled_eq_map, List.map_map, List.map_map,
      List.map_inj_left]
    intro account member
    have pair := quiet account member
    simp only [Function.comp_apply, Prod.mk.injEq] at pair
    simp only [Function.comp_apply, Scheduled.decision, pair.2]
    rfl
  · exact fun same => sameDecisions_of_decisions_eq (decisions_eq_iff.mpr same)

/-- A plan is good until it says so exactly when the clock runs on until the
next start or end of a scheduled account's quiet hours. -/
theorem planHolds_iff :
    PlanHolds db zone now ↔ ClockRunsOn zone (quietWindows db) now := by
  unfold PlanHolds ClockRunsOn
  rw [beforeReplan_iff]
  refine and_congr_right fun _ => forall₂_congr fun later _ => ?_
  rw [beforeReplan_iff, sameDecisions_iff]
  exact imp_congr_right fun _ => forall₂_congr fun quiet _ =>
    QuietHours.containsAt_eq_iff

/-- On a clock that is never set every plan holds. -/
theorem planHolds_of_fixed
    {offset : Int}
    (fixed : ∀ time, zone.offset time = offset) :
    PlanHolds db zone now := by
  have wall : ∀ time, zone.wall time = time + seconds offset := by
    intro time
    rw [Zone.wall, shown, fixed]
  have comesAt : ∀ {boundary time}, Comes zone boundary time →
      time + seconds offset = boundary := by
    intro boundary time comes
    have shows : zone.wall (boundary - seconds offset) = boundary := by
      rw [wall]
      exact Int.sub_add_cancel boundary _
    rcases comes with first | ⟨skipped, -⟩
    · rw [← wall]
      exact first.1
    · exact absurd shows (skipped _)
  refine planHolds_iff.mpr ⟨?_, ?_⟩
  · intro quiet member boundary time next comes
    have after : zone.wall now < boundary := next.1.1
    rw [wall, ← comesAt comes] at after
    exact Int.lt_of_add_lt_add_right after
  · intro later notBefore before quiet member
    obtain ⟨change, found⟩ :=
      QuietHours.exists_nextChange (quietWindows_nonempty member) zone now
    obtain ⟨boundary, next, comes⟩ := (QuietHours.nextChange_eq_some_iff
      (quietWindows_nonempty member)).mp found
    have early := before quiet member boundary change next comes
    have turned : quiet.turns (zone.wall later) = quiet.turns (zone.wall now) := by
      refine Window.turns_eq_of_lt_next (by decide) quiet.start.range
        quiet.stop.range next ?_ ?_
      · rw [wall, wall]
        exact Int.add_le_add_right notBefore _
      · rw [wall, ← comesAt comes]
        exact Int.add_lt_add_right early _
    rw [turned, sub_self]
    exact Even.zero

end

/-- Every offset function of less than a day either way is a zone's. -/
theorem exists_zone
    {offset : Instant → Int}
    (bounded : ∀ time, -86400 < offset time ∧ offset time < 86400) :
    ∃ zone : Zone, zone.offset = offset := by
  have named : ∀ reading, ∃ result : LocalResult,
      result.Of {time | shown offset time = reading} := by
    intro reading
    have finite : {time | shown offset time = reading}.Finite := by
      refine (((Set.finite_Ioo (-86400 : Int) 86400).image
        fun ahead => reading - seconds ahead)).subset ?_
      intro time shows
      refine ⟨offset time, bounded time, ?_⟩
      rw [← show shown offset time = reading from shows]
      exact Int.add_sub_cancel time _
    rcases Set.eq_empty_or_nonempty {time | shown offset time = reading} with
      empty | nonempty
    · exact ⟨.none, empty⟩
    · obtain ⟨first, firstMember, least⟩ := Set.exists_min_image _ id finite nonempty
      obtain ⟨last, lastMember, greatest⟩ := Set.exists_max_image _ id finite nonempty
      rcases lt_or_eq_of_le (least last lastMember) with less | same
      · exact ⟨.ambiguous first last, less, ⟨firstMember, least⟩,
          ⟨lastMember, greatest⟩⟩
      · refine ⟨.single first, Set.eq_singleton_iff_unique_mem.mpr
          ⟨firstMember, fun other member => ?_⟩⟩
        exact le_antisymm ((greatest other member).trans (le_of_eq same.symm))
          (least other member)
  choose fromLocal fromLocal_of using named
  exact ⟨{ offset, fromLocal, fromLocal_of }, rfl⟩

namespace Sample

/-- The local times of `setBack`, found from the offset. -/
theorem of_setBack (reading : Int) :
    (if reading < seconds 7200 then
        LocalResult.single (reading - seconds 7200)
      else if reading < seconds 10800 then
        .ambiguous (reading - seconds 7200) (reading - seconds 3600)
      else .single (reading - seconds 3600)).Of
      {time : Int |
        shown (fun time => if time < seconds 3600 then 7200 else 3600) time =
          reading} := by
  have shows : ∀ time : Int,
      shown (fun time => if time < seconds 3600 then 7200 else 3600) time = reading ↔
        time < seconds 3600 ∧ time = reading - seconds 7200 ∨
          seconds 3600 ≤ time ∧ time = reading - seconds 3600 := by
    intro time
    by_cases early : time < seconds 3600
    all_goals
      simp only [shown, early, if_true, if_false, true_and, false_and, false_or]
      unfold seconds nanosPerSecond at *
      omega
  split_ifs with early overlap
  · apply Set.ext
    intro (time : Int)
    refine (shows time).trans ?_
    change _ ↔ time = reading - seconds 7200
    unfold seconds nanosPerSecond at *
    omega
  · unfold seconds nanosPerSecond at *
    refine ⟨Int.sub_lt_sub_left (by decide) _, ⟨(shows _).mpr ?_, ?_⟩,
      (shows _).mpr ?_, ?_⟩
    · omega
    · intro (time : Int) member
      have := (shows time).mp member
      change reading - _ ≤ time
      omega
    · omega
    · intro (time : Int) member
      have := (shows time).mp member
      change time ≤ reading - _
      omega
  · apply Set.ext
    intro (time : Int)
    refine (shows time).trans ?_
    change _ ↔ time = reading - seconds 3600
    unfold seconds nanosPerSecond at *
    omega

/-- A clock two hours ahead of UTC that is set back one hour, an hour into
1970. -/
def setBack : Zone where
  offset time := if time < seconds 3600 then 7200 else 3600
  fromLocal reading :=
    if reading < seconds 7200 then .single (reading - seconds 7200)
    else if reading < seconds 10800 then
      .ambiguous (reading - seconds 7200) (reading - seconds 3600)
    else .single (reading - seconds 3600)
  fromLocal_of := of_setBack

/-- One account, checked every quarter of an hour, with quiet hours from 02:45
to 06:00. -/
def oneAccount : PlanDb where
  accounts := .ok [1]
  accountSetting _ key := .ok
    (if key = syncIntervalMinutes then some "15"
    else if key = quietHoursEnabled then some "1"
    else if key = quietHoursStart then some "02:45"
    else if key = quietHoursEnd then some "06:00"
    else none)
  setting _ := .ok none

/-- When the clock shows 02:30 for the second time, the plan asks to be made
again when it showed 02:45 for the first time, three quarters of an hour ago. -/
theorem replan_behind :
    ¬PlanHolds oneAccount setBack (seconds 5400) := by
  intro holds
  have named : (planAt oneAccount setBack (seconds 5400)).replanAt = some 2700 := by
    decide +kernel
  have ahead := holds.1 2700 named
  revert ahead
  decide

end Sample

end Background
end Mailcore
